import OncRpc.Base.Escaped
import OncRpc.Net.ParseNcp

/-! `_get_next_token` as a tokenizer: called again and again it cuts a text at the
separators that are not escaped. It undoes the escapes of some tokens, and of those not in
every run of backslashes. -/
namespace OncRpc

open Escaped

/-- The tokens that repeated calls of `_get_next_token` make, with a bound on their number. -/
def allTokensFrom (token : UInt8) : Nat → CString → List CString
  | 0, _ => []
  | n + 1, npp =>
      match getNextToken npp token with
      | (tok, none) => [tok]
      | (tok, some ros) => tok :: allTokensFrom token n ros

def allTokens (token : UInt8) (npp : CString) : List CString :=
  allTokensFrom token (npp.length + 1) npp

/-! ### The loop over the backslashes -/

/-- What the last loop of `_get_next_token` leaves of a token. -/
def takeOut : CString → CString
  | [] => []
  | [c] => if c = backslash then [] else [c]
  | [c, d] =>
      if c = backslash then (if d = backslash then [backslash] else [d]) else c :: takeOut [d]
  | c :: d :: e :: s =>
      if c = backslash then
        (if d = backslash then backslash :: e :: takeOut s else d :: takeOut (e :: s))
      else c :: takeOut (d :: e :: s)

theorem takeOut_cons_of_ne {c : UInt8} (h : c ≠ backslash) (s : CString) :
    takeOut (c :: s) = c :: takeOut s := by
  match s with
  | [] => exact if_neg h
  | [_] => exact if_neg h
  | _ :: _ :: _ => exact if_neg h

theorem takeOut_escaped {d : UInt8} (h : d ≠ backslash) (s : CString) :
    takeOut (backslash :: d :: s) = d :: takeOut s := by
  match s with
  | [] => exact (if_pos rfl).trans (if_neg h)
  | _ :: _ => exact (if_pos rfl).trans (if_neg h)

theorem takeOut_double (e : UInt8) (s : CString) :
    takeOut (backslash :: backslash :: e :: s) = backslash :: e :: takeOut s :=
  (if_pos rfl).trans (if_pos rfl)

theorem unescapeFrom_cons_of_ne {c : UInt8} (h : c ≠ backslash) (n : Nat) (s : CString) :
    unescapeFrom n (c :: s) = c :: unescapeFrom n s := by
  cases n with
  | zero => rfl
  | succ n =>
      have hTest : decide (c ≠ backslash) = true := decide_eq_true h
      simp only [unescapeFrom, List.dropWhile_cons, List.takeWhile_cons, hTest, if_true]
      rcases s.dropWhile (· ≠ backslash) with _ | ⟨_, r⟩
      · rfl
      · by_cases hDouble : r.head? = some backslash
        · simp only [if_pos hDouble]
          cases r.tail <;> rfl
        · simp only [if_neg hDouble]
          cases r <;> rfl

theorem unescapeFrom_nil (n : Nat) : unescapeFrom n [] = [] := by
  cases n <;> rfl

theorem unescapeFrom_escaped {d : UInt8} (h : d ≠ backslash) (n : Nat) (s : CString) :
    unescapeFrom (n + 1) (backslash :: d :: s) = d :: unescapeFrom n s := by
  have hTest : ¬ (some d = some backslash) := fun hSame => h (Option.some.inj hSame)
  simp [unescapeFrom, h]

theorem unescapeFrom_double (n : Nat) (s : CString) :
    unescapeFrom (n + 1) (backslash :: backslash :: s) =
      match s with
      | [] => [backslash]
      | e :: s => backslash :: e :: unescapeFrom n s := by
  cases s <;> simp [unescapeFrom]

/-- A text as the loop goes over it. -/
theorem escapes_induct {P : CString → Prop} (nil : P []) (last : P [backslash])
    (lastTwo : P [backslash, backslash])
    (double : ∀ e s, P s → P (backslash :: backslash :: e :: s))
    (escaped : ∀ d s, d ≠ backslash → P s → P (backslash :: d :: s))
    (plain : ∀ c s, c ≠ backslash → P s → P (c :: s)) (s : CString) : P s := by
  induction hLen : s.length using Nat.strong_induction_on generalizing s with
  | _ k ih =>
      subst hLen
      match s with
      | [] => exact nil
      | c :: s =>
          simp only [List.length_cons] at ih
          by_cases hc : c = backslash
          · subst hc
            match s with
            | [] => exact last
            | d :: s =>
                simp only [List.length_cons] at ih
                by_cases hd : d = backslash
                · subst hd
                  match s with
                  | [] => exact lastTwo
                  | e :: s =>
                      simp only [List.length_cons] at ih
                      exact double e s (ih s.length (by omega) s rfl)
                · exact escaped d s hd (ih s.length (by omega) s rfl)
          · exact plain c s hc (ih s.length (by omega) s rfl)

/-- With a bound that is large enough the loop comes to its end. -/
theorem unescapeFrom_eq {n : Nat} {s : CString} (h : s.length ≤ n) :
    unescapeFrom n s = takeOut s := by
  induction s using escapes_induct generalizing n with
  | nil => exact unescapeFrom_nil n
  | last =>
      obtain ⟨n, rfl⟩ := Nat.exists_eq_add_of_le' h
      rfl
  | lastTwo =>
      obtain ⟨n, rfl⟩ := Nat.exists_eq_add_of_le' h
      exact unescapeFrom_double _ []
  | double e s ih =>
      obtain ⟨n, rfl⟩ := Nat.exists_eq_add_of_le' (Nat.le_of_add_left_le h : 1 ≤ n)
      simp only [List.length_cons] at h
      rw [takeOut_double, ← ih (by omega : s.length ≤ n)]
      exact unescapeFrom_double n (e :: s)
  | escaped d s hd ih =>
      obtain ⟨n, rfl⟩ := Nat.exists_eq_add_of_le' (Nat.le_of_add_left_le h : 1 ≤ n)
      simp only [List.length_cons] at h
      rw [takeOut_escaped hd, ← ih (by omega : s.length ≤ n)]
      exact unescapeFrom_escaped hd n s
  | plain c s hc ih =>
      simp only [List.length_cons] at h
      rw [unescapeFrom_cons_of_ne hc, takeOut_cons_of_ne hc, ih (by omega)]

theorem mem_of_mem_takeOut {c : UInt8} {s : CString} (h : c ∈ takeOut s) : c ∈ s := by
  induction s using escapes_induct with
  | nil => exact h
  | last => exact absurd h List.not_mem_nil
  | lastTwo => exact List.mem_cons_of_mem _ h
  | double e s ih =>
      rw [takeOut_double, List.mem_cons, List.mem_cons] at h
      rcases h with rfl | rfl | hMem
      · exact List.mem_cons_self
      · simp
      · simp [ih hMem]
  | escaped d s hd ih =>
      rw [takeOut_escaped hd, List.mem_cons] at h
      rcases h with rfl | hMem
      · simp
      · simp [ih hMem]
  | plain d s hd ih =>
      rw [takeOut_cons_of_ne hd, List.mem_cons] at h
      exact List.mem_cons.mpr (h.imp_right ih)

/-- How many backslashes the loop leaves of a run. -/
def runLeft (k : Nat) : Nat := 2 * (k / 3) + k % 3 / 2

theorem runLeft_eq_half_iff (k : Nat) : runLeft k = k / 2 ↔ k ≤ 2 ∨ k = 4 := by
  unfold runLeft
  omega

theorem runLeft_add_three (k : Nat) : runLeft (k + 3) = runLeft k + 1 + 1 := by
  unfold runLeft
  omega

/-- Three steps of a run at a time. -/
theorem run_cases {P : Nat → Prop} (zero : P 0) (one : P 1) (two : P 2)
    (three : ∀ k, P k → P (k + 3)) (k : Nat) : P k := by
  induction k using Nat.strong_induction_on with
  | _ k ih =>
      match k with
      | 0 => exact zero
      | 1 => exact one
      | 2 => exact two
      | k + 3 => exact three k (ih k (by omega))

/-- A run of backslashes in front of another character. -/
theorem takeOut_replicate_append (k : Nat) {x : UInt8} (hx : x ≠ backslash) (s : CString) :
    takeOut (List.replicate k backslash ++ x :: s) =
      List.replicate (runLeft k) backslash ++ x :: takeOut s := by
  induction k using run_cases with
  | zero => exact takeOut_cons_of_ne hx s
  | one => exact takeOut_escaped hx s
  | two => exact takeOut_double x s
  | three k ih =>
      have hStep : takeOut (List.replicate (k + 3) backslash ++ x :: s) =
          backslash :: backslash :: takeOut (List.replicate k backslash ++ x :: s) :=
        takeOut_double backslash _
      rw [hStep, ih, runLeft_add_three]
      rfl

/-- A run of backslashes at the end. -/
theorem takeOut_replicate (k : Nat) :
    takeOut (List.replicate k backslash) = List.replicate (runLeft k) backslash := by
  induction k using run_cases with
  | zero => rfl
  | one => rfl
  | two => rfl
  | three k ih =>
      have hStep : takeOut (List.replicate (k + 3) backslash) =
          backslash :: backslash :: takeOut (List.replicate k backslash) :=
        takeOut_double backslash _
      rw [hStep, ih, runLeft_add_three]
      rfl

/-- The runs of backslashes in a text, one for each place between its other characters. -/
def runs (b : CString) : List CString := b.splitOnP (· ≠ backslash)

/-- A run that the loop takes out as it should. -/
def FewOrFour (r : CString) : Prop := r.length ≤ 2 ∨ r.length = 4

instance (r : CString) : Decidable (FewOrFour r) := inferInstanceAs (Decidable (_ ∨ _))

theorem exists_run (b : CString) :
    ∃ k, b = List.replicate k backslash ∨
      ∃ x s, x ≠ backslash ∧ b = List.replicate k backslash ++ x :: s := by
  induction b with
  | nil => exact ⟨0, Or.inl rfl⟩
  | cons c b ih =>
      by_cases hc : c = backslash
      · subst hc
        obtain ⟨k, rfl | ⟨x, s, hx, rfl⟩⟩ := ih
        · exact ⟨k + 1, Or.inl rfl⟩
        · exact ⟨k + 1, Or.inr ⟨x, s, hx, rfl⟩⟩
      · exact ⟨0, Or.inr ⟨c, b, hc, rfl⟩⟩

theorem runs_replicate (k : Nat) :
    runs (List.replicate k backslash) = [List.replicate k backslash] := by
  apply List.splitOnP_eq_singleton
  intro c hc
  simpa using List.eq_of_mem_replicate hc

theorem runs_replicate_append (k : Nat) {x : UInt8} (hx : x ≠ backslash) (s : CString) :
    runs (List.replicate k backslash ++ x :: s) = List.replicate k backslash :: runs s := by
  apply List.splitOnP_append_cons_of_forall_mem
  · intro c hc
    simpa using List.eq_of_mem_replicate hc
  · simpa using hx

/-- Two runs end where another character stands. -/
theorem replicate_append_cons_inj {a b : Nat} {x : UInt8} (hx : x ≠ backslash) {s t : CString} :
    List.replicate a backslash ++ x :: s = List.replicate b backslash ++ x :: t ↔
      a = b ∧ s = t := by
  induction a generalizing b with
  | zero =>
      cases b with
      | zero => simp
      | succ b =>
          rw [List.replicate_succ, List.cons_append]
          simp [hx]
  | succ a ih =>
      cases b with
      | zero =>
          rw [List.replicate_succ, List.cons_append]
          simp [Ne.symm hx]
      | succ b =>
          rw [List.replicate_succ, List.replicate_succ, List.cons_append, List.cons_append,
            List.cons_inj_right, ih, Nat.add_right_cancel_iff]

/-- The loop undoes the escapes of a token if and only if it has no long run. -/
theorem takeOut_eq_unescape_iff {b : CString} (hEven : run backslash b % 2 = 0) :
    takeOut b = unescape backslash b ↔ ∀ r ∈ runs b, FewOrFour r := by
  induction hLen : b.length using Nat.strong_induction_on generalizing b with
  | _ n ih =>
      subst hLen
      obtain ⟨k, rfl | ⟨x, s, hx, rfl⟩⟩ := exists_run b
      · rw [run_replicate] at hEven
        rw [takeOut_replicate, unescape_replicate hEven, runs_replicate,
          List.forall_mem_singleton, FewOrFour, List.length_replicate, ← runLeft_eq_half_iff]
        exact ⟨fun h => by simpa using congrArg List.length h, fun h => by rw [h]⟩
      · have hRun : run backslash (List.replicate k backslash ++ x :: s) = run backslash s := by
          rw [← List.singleton_append, ← List.append_assoc]
          exact run_append_of_run_eq_zero (by rw [run_concat, if_neg hx]) s
        rw [hRun] at hEven
        rw [takeOut_replicate_append k hx, unescape_replicate_append k hx,
          replicate_append_cons_inj hx, runs_replicate_append k hx, List.forall_mem_cons,
          FewOrFour, List.length_replicate, ← runLeft_eq_half_iff]
        apply and_congr_right
        intro _
        exact ih s.length (by simp; omega) hEven rfl

/-! ### Calls of the tokenizer -/

section Calls

variable {token : UInt8}

/-- The separator behind `before` is taken for an escaped one. -/
def TakenEscaped (before : CString) : Prop :=
  before.getLast? = some backslash ∧ 1 < before.length ∧
    before.dropLast.getLast? ≠ some backslash

instance (before : CString) : Decidable (TakenEscaped before) :=
  inferInstanceAs (Decidable (_ ∧ _))

theorem takenEscaped_iff {before : CString} :
    TakenEscaped before ↔ ∃ w, before = w ++ [backslash] ∧ w ≠ [] ∧ w.getLast? ≠ some backslash := by
  constructor
  · rintro ⟨hLast, hLong, hBefore⟩
    obtain ⟨w, rfl⟩ := List.getLast?_eq_some_iff.mp hLast
    refine ⟨w, rfl, ?_, by simpa using hBefore⟩
    rintro rfl
    exact absurd hLong (Nat.lt_irrefl 1)
  · rintro ⟨w, rfl, hw, hLast⟩
    have hPos := List.length_pos_iff.mpr hw
    refine ⟨by simp, ?_, by simpa using hLast⟩
    rw [List.length_append, List.length_singleton]
    omega

theorem takeWhile_ne_append {b : CString} (hb : token ∉ b) (s : CString) :
    (b ++ token :: s).takeWhile (· ≠ token) = b := by
  have hAll : ∀ c ∈ b, decide (c ≠ token) = true :=
    fun c hc => decide_eq_true fun hSame => hb (hSame ▸ hc)
  rw [List.takeWhile_append_of_pos hAll]
  simp

theorem dropWhile_ne_append {b : CString} (hb : token ∉ b) (s : CString) :
    (b ++ token :: s).dropWhile (· ≠ token) = token :: s := by
  have hAll : ∀ c ∈ b, decide (c ≠ token) = true :=
    fun c hc => decide_eq_true fun hSame => hb (hSame ▸ hc)
  rw [List.dropWhile_append_of_pos hAll]
  simp

/-- A text has no separator, or a first one. -/
theorem exists_first (token : UInt8) (s : CString) :
    token ∉ s ∨ ∃ b rest, token ∉ b ∧ s = b ++ token :: rest := by
  by_cases h : token ∈ s
  · obtain ⟨b, rest, rfl, hb⟩ := List.eq_append_cons_of_mem h
    exact Or.inr ⟨b, rest, hb, rfl⟩
  · exact Or.inl h

theorem getNextTokenFrom_of_not_mem {b : CString} (hb : token ∉ b) (n : Nat) :
    getNextTokenFrom token n b = (b, none) := by
  cases n with
  | zero => rfl
  | succ n =>
      have hNone : b.dropWhile (· ≠ token) = [] := by
        apply List.dropWhile_eq_nil_iff.mpr
        intro c hc
        exact decide_eq_true fun hSame => hb (hSame ▸ hc)
      rw [getNextTokenFrom, hNone]

theorem getNextTokenFrom_append {b : CString} (hb : token ∉ b) (n : Nat) (s : CString) :
    getNextTokenFrom token (n + 1) (b ++ token :: s) =
      if TakenEscaped b then
        (b.dropLast ++ token :: (getNextTokenFrom token n s).1, (getNextTokenFrom token n s).2)
      else (takeOut b, some s) := by
  rw [getNextTokenFrom, dropWhile_ne_append hb, takeWhile_ne_append hb]
  simp only
  apply if_congr Iff.rfl rfl
  rw [unescapeFrom_eq (Nat.le_refl _)]

/-- A bound beyond the length of the text is as good as none. -/
theorem getNextTokenFrom_eq {n : Nat} {s : CString} (h : s.length < n) :
    getNextTokenFrom token n s = getNextToken s token := by
  unfold getNextToken
  generalize hm : s.length + 1 = m
  have hLt : s.length < m := by omega
  clear hm
  induction n generalizing m s with
  | zero => cases h
  | succ n ih =>
      obtain ⟨m, rfl⟩ := Nat.exists_eq_succ_of_ne_zero (Nat.ne_of_gt (Nat.zero_lt_of_lt hLt))
      rcases exists_first token s with hNone | ⟨b, rest, hb, rfl⟩
      · rw [getNextTokenFrom_of_not_mem hNone, getNextTokenFrom_of_not_mem hNone]
      · rw [List.length_append, List.length_cons] at h hLt
        rw [getNextTokenFrom_append hb, getNextTokenFrom_append hb,
          ih (by omega) m (by omega)]

theorem getNextToken_of_not_mem {b : CString} (hb : token ∉ b) :
    getNextToken b token = (b, none) := getNextTokenFrom_of_not_mem hb _

theorem getNextToken_append {b : CString} (hb : token ∉ b) (s : CString) :
    getNextToken (b ++ token :: s) token =
      if TakenEscaped b then
        (b.dropLast ++ token :: (getNextToken s token).1, (getNextToken s token).2)
      else (takeOut b, some s) := by
  rw [getNextToken, getNextTokenFrom_append hb, getNextTokenFrom_eq]
  rw [List.length_append, List.length_cons]
  omega

/-- The rest of the string is shorter than the string. -/
theorem length_getNextToken {s ros : CString} (h : (getNextToken s token).2 = some ros) :
    ros.length < s.length := by
  induction hLen : s.length using Nat.strong_induction_on generalizing s with
  | _ n ih =>
      subst hLen
      rcases exists_first token s with hNone | ⟨b, rest, hb, rfl⟩
      · rw [getNextToken_of_not_mem hNone] at h
        cases h
      · rw [getNextToken_append hb] at h
        rw [List.length_append, List.length_cons]
        split at h
        · have hRest := ih rest.length (by simp; omega) h rfl
          omega
        · cases h
          omega

theorem allTokensFrom_eq {n : Nat} {s : CString} (h : s.length < n) :
    allTokensFrom token n s = allTokens token s := by
  unfold allTokens
  generalize hm : s.length + 1 = m
  have hLt : s.length < m := by omega
  clear hm
  induction n generalizing m s with
  | zero => cases h
  | succ n ih =>
      obtain ⟨m, rfl⟩ := Nat.exists_eq_succ_of_ne_zero (Nat.ne_of_gt (Nat.zero_lt_of_lt hLt))
      rw [allTokensFrom, allTokensFrom]
      rcases hNext : getNextToken s token with ⟨tok, _ | ros⟩
      · rfl
      · have hShort := length_getNextToken (congrArg Prod.snd hNext)
        simp only [ih (by omega : ros.length < n) m (by omega)]

theorem allTokens_eq (s : CString) :
    allTokens token s =
      match getNextToken s token with
      | (tok, none) => [tok]
      | (tok, some ros) => tok :: allTokens token ros := by
  rw [allTokens, allTokensFrom]
  rcases hNext : getNextToken s token with ⟨tok, _ | ros⟩
  · rfl
  · have hShort := length_getNextToken (congrArg Prod.snd hNext)
    simp only [allTokensFrom_eq hShort]

theorem allTokens_of_not_mem {b : CString} (hb : token ∉ b) : allTokens token b = [b] := by
  rw [allTokens_eq, getNextToken_of_not_mem hb]

theorem allTokens_ne_nil (s : CString) : allTokens token s ≠ [] := by
  rw [allTokens_eq]
  rcases getNextToken s token with ⟨tok, _ | ros⟩ <;> exact List.cons_ne_nil _ _

theorem allTokens_append {b : CString} (hb : token ∉ b) (s : CString) :
    allTokens token (b ++ token :: s) =
      if TakenEscaped b then (allTokens token s).modifyHead ((b.dropLast ++ [token]) ++ ·)
      else takeOut b :: allTokens token s := by
  rw [allTokens_eq, getNextToken_append hb]
  by_cases hEscaped : TakenEscaped b
  · rw [if_pos hEscaped, if_pos hEscaped, allTokens_eq s]
    rcases getNextToken s token with ⟨tok, _ | ros⟩ <;> simp
  · rw [if_neg hEscaped, if_neg hEscaped]

end Calls

/-! ### When the tokens are right -/

section Right

variable {token : UInt8}

/-- What stands between two separators is cut off and undone as it should be: either no
escape is pending at its end and every run of backslashes is short enough or of four, or
its only backslash is the last one of several characters. -/
def Tractable (b : CString) : Prop :=
  (run backslash b % 2 = 0 ∧ ∀ r ∈ runs b, FewOrFour r) ∨
    ∃ w, b = w ++ [backslash] ∧ w ≠ [] ∧ backslash ∉ w

/-- The condition on a text: on the pieces between its separators, and on the last one. -/
def TractableText (token : UInt8) (s : CString) : Prop :=
  (∀ b ∈ (s.splitOn token).dropLast, Tractable b) ∧
    ∀ b, (s.splitOn token).getLast? = some b → backslash ∉ b.dropLast

theorem tractableText_of_not_mem {b : CString} (hb : token ∉ b) :
    TractableText token b ↔ backslash ∉ b.dropLast := by
  simp [TractableText, List.splitOn_eq_singleton hb]

theorem tractableText_append {b : CString} (hb : token ∉ b) (s : CString) :
    TractableText token (b ++ token :: s) ↔ Tractable b ∧ TractableText token s := by
  obtain ⟨c, cs, hSplit⟩ := List.exists_cons_of_ne_nil (List.splitOn_ne_nil token s)
  rw [TractableText, List.splitOn_append_cons_self_of_not_mem hb, TractableText, hSplit,
    List.dropLast_cons_cons, List.forall_mem_cons, List.getLast?_cons_cons, and_assoc]

/-- Two tokens are cut at their first separator. -/
theorem append_separator_inj {u v x y : CString} (hu : token ∉ u) (hv : token ∉ v) :
    u ++ [token] ++ x = v ++ [token] ++ y ↔ u = v ∧ x = y := by
  constructor
  · intro hSame
    rw [List.append_assoc, List.append_assoc] at hSame
    have hFront := congrArg (List.takeWhile (· ≠ token)) hSame
    rw [List.singleton_append, List.singleton_append, takeWhile_ne_append hu,
      takeWhile_ne_append hv] at hFront
    subst hFront
    exact ⟨rfl, by simpa using hSame⟩
  · rintro ⟨rfl, rfl⟩
    rfl

theorem modifyHead_separator_inj {u v : CString} (hu : token ∉ u) (hv : token ∉ v)
    {ts ts' : List CString} (hNonempty : ts ≠ []) (hNonempty' : ts' ≠ []) :
    ts.modifyHead ((u ++ [token]) ++ ·) = ts'.modifyHead ((v ++ [token]) ++ ·) ↔
      u = v ∧ ts = ts' := by
  obtain ⟨t, ts, rfl⟩ := List.exists_cons_of_ne_nil hNonempty
  obtain ⟨t', ts', rfl⟩ := List.exists_cons_of_ne_nil hNonempty'
  rw [List.modifyHead_cons, List.modifyHead_cons, List.cons.injEq, append_separator_inj hu hv,
    List.cons.injEq, and_assoc]

/-- A separator that is taken for an escaped one is escaped, and the text before it stays as
it is. -/
theorem tractable_takenEscaped {w : CString} (hw : w ≠ []) (hLast : w.getLast? ≠ some backslash) :
    Tractable (w ++ [backslash]) ↔ unescape backslash w = w := by
  have hRun := run_eq_zero hLast
  rw [unescape_eq_self_iff]
  have hMem : backslash ∈ w ↔ backslash ∈ w.dropLast := by
    refine ⟨fun hIn => ?_, List.mem_of_mem_dropLast⟩
    rw [← List.dropLast_append_getLast hw, List.mem_append, List.mem_singleton] at hIn
    rcases hIn with hFront | hEnd
    · exact hFront
    · rw [List.getLast?_eq_some_getLast hw, ← hEnd] at hLast
      exact absurd rfl hLast
  rw [← hMem]
  constructor
  · rintro (⟨hEven, -⟩ | ⟨v, hv, -, hNot⟩)
    · rw [run_concat, if_pos rfl, hRun] at hEven
      cases hEven
    · rw [List.append_cancel_right hv]
      exact hNot
  · exact fun hNot => Or.inr ⟨w, rfl, hw, hNot⟩

/-- Repeated calls make the tokens of the text exactly where it is tractable. -/
theorem allTokens_eq_iff (hToken : token ≠ backslash) (s : CString) :
    allTokens token s = tokens backslash token s ↔ TractableText token s := by
  induction hLen : s.length using Nat.strong_induction_on generalizing s with
  | _ n ih =>
      subst hLen
      rcases exists_first token s with hNone | ⟨b, rest, hb, rfl⟩
      · rw [allTokens_of_not_mem hNone, tokens_of_not_mem hNone, tractableText_of_not_mem hNone,
          ← unescape_eq_self_iff, List.cons.injEq, and_iff_left rfl]
        exact eq_comm
      · have hRest := ih rest.length (by simp; omega) rest rfl
        rw [allTokens_append hb, tractableText_append hb, ← hRest]
        by_cases hEscaped : TakenEscaped b
        · obtain ⟨w, rfl, hw, hLast⟩ := takenEscaped_iff.mp hEscaped
          have hNot : token ∉ w := fun hMem => hb (List.mem_append_left _ hMem)
          have hRun := run_eq_zero hLast
          rw [if_pos hEscaped, tokens_of_odd hToken hNot (by rw [hRun]), List.dropLast_concat,
            modifyHead_separator_inj hNot (fun hMem => hNot (mem_of_mem_unescape hMem))
              (allTokens_ne_nil rest) (tokens_ne_nil rest), tractable_takenEscaped hw hLast]
          exact and_congr_left fun _ => eq_comm
        · rw [if_neg hEscaped]
          by_cases hEven : run backslash b % 2 = 0
          · rw [tokens_of_even hb hEven, List.cons.injEq, takeOut_eq_unescape_iff hEven]
            apply and_congr_left
            intro _
            refine ⟨fun hRuns => Or.inl ⟨hEven, hRuns⟩, ?_⟩
            rintro (⟨-, hRuns⟩ | ⟨w, rfl, hw, hNot⟩)
            · exact hRuns
            · exact absurd (takenEscaped_iff.mpr ⟨w, rfl, hw, fun hLast =>
                hNot (List.mem_of_getLast? hLast)⟩) hEscaped
          · -- The separator is escaped and ends a token all the same.
            obtain ⟨w, rfl⟩ := eq_concat_of_run_pos (by omega : 0 < run backslash b)
            have hNot : token ∉ w := fun hMem => hb (List.mem_append_left _ hMem)
            rw [run_concat, if_pos rfl] at hEven
            rw [tokens_of_odd hToken hNot (by omega)]
            obtain ⟨t, ts, hTokens⟩ := List.exists_cons_of_ne_nil
              (@tokens_ne_nil _ _ backslash token rest)
            rw [hTokens]
            constructor
            · intro hSame
              have hHead := (List.cons.inj hSame).1
              have hMem : token ∈ takeOut (w ++ [backslash]) := by
                rw [hHead]
                simp
              exact absurd (mem_of_mem_takeOut hMem) hb
            · rintro ⟨⟨hRun, -⟩ | ⟨v, hv, hw, hFree⟩, -⟩
              · rw [run_concat, if_pos rfl] at hRun
                omega
              · exact absurd (takenEscaped_iff.mpr ⟨v, hv, hw, fun hLast =>
                  hFree (List.mem_of_getLast? hLast)⟩) hEscaped

end Right

end OncRpc
