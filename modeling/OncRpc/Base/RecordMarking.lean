import OncRpc.Base.Word

/-! Record marking. A record is a list of fragments, and each fragment travels
behind a four-byte header: the high bit tells whether it is the last one of its
record, the other bits count its bytes. -/
namespace RecordMarking

/-- The bit that marks the last fragment of a record. -/
def lastBit : BitVec 32 := 1 <<< 31

theorem and_lastBit_eq_zero (w : BitVec 32) : w &&& lastBit = 0 ↔ w.toNat < 2 ^ 31 := by
  have hBit : w.getLsbD 31 = decide (2 ^ 31 ≤ w.toNat) := by
    rw [← BitVec.msb_eq_getLsbD_last, BitVec.msb_eq_decide]
  have hOne : BitVec.twoPow 32 31 ≠ 0#32 := by decide
  rw [show lastBit = BitVec.twoPow 32 31 from rfl, BitVec.and_twoPow, hBit]
  by_cases h : 2 ^ 31 ≤ w.toNat
  · rw [decide_eq_true h, if_pos rfl]
    exact iff_of_false hOne (Nat.not_lt.mpr h)
  · rw [decide_eq_false h, if_neg Bool.false_ne_true]
    exact iff_of_true rfl (Nat.not_le.mp h)

theorem toNat_and_not_lastBit (w : BitVec 32) : (w &&& ~~~lastBit).toNat = w.toNat % 2 ^ 31 := by
  have hMask : (~~~lastBit).toNat = 2 ^ 31 - 1 := by decide
  rw [BitVec.toNat_and, hMask, Nat.and_two_pow_sub_one_eq_mod]

theorem toNat_or_lastBit {w : BitVec 32} (h : w.toNat < 2 ^ 31) :
    (w ||| lastBit).toNat = w.toNat + 2 ^ 31 := by
  have hLast : lastBit.toNat = 2 ^ 31 := by decide
  have hOr := Nat.two_pow_add_eq_or_of_lt h 1
  rw [Nat.mul_one] at hOr
  rw [BitVec.toNat_or, hLast, Nat.or_comm, ← hOr, Nat.add_comm]

/-- The header of a fragment of `len` bytes. -/
def header (len : Nat) (last : Bool) : BitVec 32 :=
  BitVec.ofNat 32 len ||| (if last then lastBit else 0)

theorem toNat_header {len : Nat} (h : len < 2 ^ 31) (last : Bool) :
    (header len last).toNat = len + if last then 2 ^ 31 else 0 := by
  have hLen : (BitVec.ofNat 32 len).toNat = len := by
    rw [BitVec.toNat_ofNat]
    exact Nat.mod_eq_of_lt (by omega)
  unfold header
  cases last with
  | false => simpa using hLen
  | true =>
      rw [if_pos rfl, if_pos rfl, toNat_or_lastBit (by omega), hLen]

theorem length_of_header {len : Nat} (h : len < 2 ^ 31) (last : Bool) :
    (header len last &&& ~~~lastBit).toNat = len := by
  rw [toNat_and_not_lastBit, toNat_header h]
  split <;> omega

theorem last_of_header {len : Nat} (h : len < 2 ^ 31) (last : Bool) :
    header len last &&& lastBit = 0 ↔ last = false := by
  rw [and_lastBit_eq_zero, toNat_header h]
  cases last with
  | false => simpa using h
  | true => simp

/-- The header is the zero word only for an empty fragment that is not the last. -/
theorem header_eq_zero {len : Nat} (h : len < 2 ^ 31) (last : Bool) :
    header len last = 0 ↔ len = 0 ∧ last = false := by
  have hEq := toNat_header h last
  rw [← BitVec.toNat_inj, hEq]
  cases last <;> simp

theorem header_injective {len len' : Nat} {last last' : Bool} (h : len < 2 ^ 31)
    (h' : len' < 2 ^ 31) (hEq : header len last = header len' last') :
    len = len' ∧ last = last' := by
  have hNat := congrArg BitVec.toNat hEq
  rw [toNat_header h, toNat_header h'] at hNat
  cases last <;> cases last' <;> simp at hNat ⊢ <;> omega

/-- A fragment whose length fits into a header. -/
structure Fragment where
  body : List UInt8
  last : Bool
  fits : body.length < 2 ^ 31

namespace Fragment

theorem fits_nil : ([] : List UInt8).length < 2 ^ 31 := by decide

theorem last_nil : ({ body := [], last := true, fits := fits_nil } : Fragment).last = true := rfl

/-- The header word in front of the fragment. -/
def head (f : Fragment) : BitVec 32 := header f.body.length f.last

/-- The bytes of the fragment on the wire. -/
def encode (f : Fragment) : List UInt8 := Word.toBytes f.head ++ f.body

@[simp] theorem length_encode (f : Fragment) : f.encode.length = 4 + f.body.length := by
  simp [encode]

theorem head_eq_zero (f : Fragment) : f.head = 0 ↔ f.body = [] ∧ f.last = false := by
  rw [head, header_eq_zero f.fits, List.length_eq_zero_iff]

theorem encode_ne_nil (f : Fragment) : f.encode ≠ [] := by
  intro h
  have hLen := f.length_encode
  rw [h] at hLen
  simp at hLen
  omega

/-- The first fragment of a stream can be told from its bytes. -/
theorem encode_append_inj {f g : Fragment} {s t : List UInt8}
    (h : f.encode ++ s = g.encode ++ t) : f = g ∧ s = t := by
  rcases f with ⟨body, last, fits⟩
  rcases g with ⟨body', last', fits'⟩
  simp only [encode, head, List.append_assoc] at h
  obtain ⟨hHead, hRest⟩ := List.append_inj h rfl
  obtain ⟨hLen, rfl⟩ := header_injective fits fits' (Word.toBytes_injective hHead)
  obtain ⟨rfl, rfl⟩ := List.append_inj hRest hLen
  exact ⟨rfl, rfl⟩

end Fragment

/-- The bytes of a list of fragments on the wire. -/
def encodeAll (fs : List Fragment) : List UInt8 := fs.flatMap Fragment.encode

@[simp] theorem encodeAll_nil : encodeAll [] = [] := rfl

@[simp] theorem encodeAll_cons (f : Fragment) (fs : List Fragment) :
    encodeAll (f :: fs) = f.encode ++ encodeAll fs := List.flatMap_cons

@[simp] theorem encodeAll_append (fs gs : List Fragment) :
    encodeAll (fs ++ gs) = encodeAll fs ++ encodeAll gs := List.flatMap_append

/-- A byte stream is cut into fragments in one way at most. -/
theorem encodeAll_injective {fs gs : List Fragment} (h : encodeAll fs = encodeAll gs) :
    fs = gs := by
  induction fs generalizing gs with
  | nil =>
      cases gs with
      | nil => rfl
      | cons g gs => simp [g.encode_ne_nil] at h
  | cons f fs ih =>
      cases gs with
      | nil => simp [f.encode_ne_nil] at h
      | cons g gs =>
          rw [encodeAll_cons, encodeAll_cons] at h
          obtain ⟨rfl, hRest⟩ := Fragment.encode_append_inj h
          rw [ih hRest]

/-- A record: fragments of which exactly the final one is marked. -/
structure Record where
  more : List Fragment
  final : Fragment
  more_last : ∀ f ∈ more, f.last = false
  final_last : final.last = true

namespace Record

/-- A record of one fragment has no fragments before it. -/
theorem none_last : ∀ f ∈ ([] : List Fragment), f.last = false := fun _ hMem => by cases hMem

def frags (r : Record) : List Fragment := r.more ++ [r.final]

def body (r : Record) : List UInt8 := r.frags.flatMap Fragment.body

theorem body_eq (r : Record) : r.body = r.more.flatMap Fragment.body ++ r.final.body := by
  simp [body, frags]

theorem length_le_of_mem_frags {r : Record} {f : Fragment} (h : f ∈ r.frags) :
    f.body.length ≤ r.body.length := by
  rw [body, List.flatMap_def]
  exact (List.sublist_flatten_of_mem (List.mem_map_of_mem h)).length_le

/-- A record begins with its final fragment, or with one that a record follows. -/
theorem frags_cases (r : Record) :
    (r.frags = [r.final] ∧ r.body = r.final.body) ∨
    ∃ (f : Fragment) (r' : Record), r.frags = f :: r'.frags ∧ f.last = false ∧ r.body = f.body ++ r'.body := by
  rcases r with ⟨more, final, hMore, hFinal⟩
  cases more with
  | nil => exact Or.inl ⟨rfl, by simp [body, frags]⟩
  | cons f more =>
      refine Or.inr ⟨f, ⟨more, final, fun g hg => hMore g (List.mem_cons_of_mem f hg), hFinal⟩,
        rfl, hMore f List.mem_cons_self, ?_⟩
      simp [body, frags]

end Record

/-- Behind a fragment that is marked a record begins, or the stream is at its end. -/
theorem exists_drop_of_last {rs : List Record} {f : Fragment} {fs : List Fragment}
    (h : f :: fs <:+ rs.flatMap Record.frags) (hLast : f.last = true) :
    ∃ j, fs = (rs.drop j).flatMap Record.frags := by
  induction rs with
  | nil =>
      rw [List.flatMap_nil, List.suffix_nil] at h
      cases h
  | cons r rs ih =>
      obtain ⟨before, hAll⟩ := h
      rw [List.flatMap_cons] at hAll
      rcases List.append_eq_append_iff.mp hAll with ⟨own, hOwn, hRest⟩ | ⟨later, -, hRest⟩
      · cases own with
        | nil =>
            obtain ⟨j, hj⟩ := ih ⟨[], hRest⟩
            exact ⟨j + 1, hj⟩
        | cons g own =>
            rw [List.cons_append, List.cons.injEq] at hRest
            obtain ⟨rfl, rfl⟩ := hRest
            rcases List.eq_nil_or_concat own with rfl | ⟨own, x, rfl⟩
            · exact ⟨1, rfl⟩
            · have hMore : r.more ++ [r.final] = (before ++ f :: own) ++ [x] := by
                rw [show r.more ++ [r.final] = r.frags from rfl, hOwn]
                simp
              have hMem : f ∈ r.more := by
                rw [(List.append_inj' hMore rfl).1]
                simp
              rw [r.more_last f hMem] at hLast
              cases hLast
      · obtain ⟨j, hj⟩ := ih ⟨later, hRest.symm⟩
        exact ⟨j + 1, hj⟩

/-- The zero word stands in front of the empty fragments that are not final. -/
theorem exists_head_eq_zero_iff (rs : List Record) :
    (∃ f ∈ rs.flatMap Record.frags, f.head = 0) ↔ ∃ r ∈ rs, ∃ f ∈ r.more, f.body = [] := by
  constructor
  · rintro ⟨f, hf, hZero⟩
    obtain ⟨r, hr, hfr⟩ := List.mem_flatMap.mp hf
    obtain ⟨hBody, hMark⟩ := f.head_eq_zero.mp hZero
    rcases List.mem_append.mp hfr with hMore | hFinal
    · exact ⟨r, hr, f, hMore, hBody⟩
    · obtain rfl := List.mem_singleton.mp hFinal
      rw [r.final_last] at hMark
      cases hMark
  · rintro ⟨r, hr, f, hf, hBody⟩
    exact ⟨f, List.mem_flatMap.mpr ⟨r, hr, List.mem_append_left _ hf⟩,
      f.head_eq_zero.mpr ⟨hBody, r.more_last f hf⟩⟩

theorem exists_body_eq_nil_iff (rs : List Record) :
    (∃ f ∈ rs.flatMap Record.frags, f.body = []) ↔
      (∃ r ∈ rs, ∃ f ∈ r.more, f.body = []) ∨ ∃ r ∈ rs, r.final.body = [] := by
  constructor
  · rintro ⟨f, hf, hBody⟩
    obtain ⟨r, hr, hfr⟩ := List.mem_flatMap.mp hf
    rcases List.mem_append.mp hfr with hMore | hFinal
    · exact Or.inl ⟨r, hr, f, hMore, hBody⟩
    · obtain rfl := List.mem_singleton.mp hFinal
      exact Or.inr ⟨r, hr, hBody⟩
  · rintro (⟨r, hr, f, hf, hBody⟩ | ⟨r, hr, hBody⟩)
    · exact ⟨f, List.mem_flatMap.mpr ⟨r, hr, List.mem_append_left _ hf⟩, hBody⟩
    · exact ⟨r.final, List.mem_flatMap.mpr ⟨r, hr, List.mem_append_right _ (by simp)⟩, hBody⟩

end RecordMarking
