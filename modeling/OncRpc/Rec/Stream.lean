import OncRpc.Base.RecordMarking
import OncRpc.Rec.Transport
import OncRpc.Xdr.Stream

/-! `xdr_rec.c`: XDR over a record-marked byte stream. Pointers into the two
buffers are offsets. The C loops run on fuel that their callers choose, and the
modules that follow show that they never run out of it. -/
namespace OncRpc

open Fallible RecordMarking

/-- `LAST_FRAG`. -/
def lastFragBit : BitVec 32 := 1 <<< 31

/-- The host under the library: what `malloc` and `realloc` leave in fresh memory,
and the sizes that `realloc` can serve. -/
structure Host where
  junk : Nat → UInt8
  reallocs : Nat → Bool

/-- A host whose fresh memory is zero. -/
def zeroHost : Host := { junk := fun _ => 0, reallocs := fun _ => true }

/-- `malloc(n)`. -/
def Host.malloc (host : Host) (n : Nat) : List UInt8 := (List.range n).map host.junk

/-- `enum xprt_stat`. -/
inductive XprtStat where
  | died
  | moreReqs
  | idle
  deriving DecidableEq, Repr

/-- `RECSTREAM`. -/
structure RecStrm where
  host : Host
  /-- What `tcp_handle`, `readit` and `writeit` stand for. -/
  tcp : Transport
  outBase : List UInt8
  outFinger : Nat
  outBoundry : Nat
  fragHeader : Nat
  fragSent : Bool
  inSize : Nat
  inBase : List UInt8
  inFinger : Nat
  inBoundry : Nat
  fbtbc : Nat
  lastFrag : Bool
  sendsize : Nat
  recvsize : Nat
  nonblock : Bool
  inHaveheader : Bool
  /-- The four bytes at `in_header`; `in_hdrp` points `in_hdrlen` bytes into them. -/
  inHeader : List UInt8
  inHdrlen : Nat
  inReclen : Int
  inReceived : Int
  inMaxrec : Int

/-- `fix_buf_size`, in unsigned arithmetic. -/
def fixBufSize (s : BitVec 32) : BitVec 32 :=
  let s := if s < 100 then 4000 else s
  (s + 3) / 4 * 4

/-- Without overflow the size is the default or the request rounded up. -/
theorem toNat_fixBufSize {s : BitVec 32} (h : s.toNat ≤ 2 ^ 32 - 4) :
    (fixBufSize s).toNat = rndup (if s.toNat < 100 then 4000 else s.toNat) := by
  have hSmall : s < 100 ↔ s.toNat < 100 := BitVec.lt_def
  unfold fixBufSize rndup bytesPerXdrUnit
  by_cases hs : s.toNat < 100
  · simp only [if_pos (hSmall.mpr hs), if_pos hs]
    decide
  · have hThree : (3 : BitVec 32).toNat = 3 := rfl
    have hFour : (4 : BitVec 32).toNat = 4 := rfl
    simp only [if_neg (mt hSmall.mp hs), if_neg hs, BitVec.toNat_mul, BitVec.toNat_udiv,
      BitVec.toNat_add, hThree, hFour]
    rw [Nat.mod_eq_of_lt (by omega : s.toNat + 3 < 2 ^ 32), Nat.mod_eq_of_lt (by omega)]
    rfl

theorem le_fixBufSize {s : BitVec 32} (h : s.toNat ≤ 2 ^ 32 - 4) :
    100 ≤ (fixBufSize s).toNat := by
  rw [toNat_fixBufSize h, rndup, bytesPerXdrUnit]
  split <;> omega

/-- Addition of two `int`s. -/
def intAdd (a b : Int) : Int := (a + b).bmod (2 ^ 32)

namespace RecStrm

/-- `xdrrec_create`, when its allocations succeed. -/
def xdrrecCreate (sendsize recvsize : BitVec 32) (host : Host) (tcp : Transport) : RecStrm :=
  let sendsize := (fixBufSize sendsize).toNat
  let recvsize := (fixBufSize recvsize).toNat
  { host := host, tcp := tcp
    outBase := host.malloc sendsize, outFinger := 4, outBoundry := sendsize
    fragHeader := 0, fragSent := false
    inSize := recvsize, inBase := host.malloc recvsize, inFinger := recvsize
    inBoundry := recvsize, fbtbc := 0, lastFrag := true
    sendsize := sendsize, recvsize := recvsize
    nonblock := false, inHaveheader := false, inHeader := [0, 0, 0, 0], inHdrlen := 0
    inReclen := 0, inReceived := 0, inMaxrec := 0 }

/-- `__xdrrec_setnonblock`. -/
def setNonblock (maxrec : Int) (s : RecStrm) : RecStrm :=
  { s with nonblock := true, inMaxrec := if maxrec = 0 then s.recvsize else maxrec }

/-! ### Sending -/

/-- `flush_out`. -/
def flushOut (eor : Bool) : Fallible RecStrm Unit := fun s =>
  let eormask : BitVec 32 := if eor then lastFragBit else 0
  let len := BitVec.ofNat 32 (s.outFinger - s.fragHeader - 4)
  let s := { s with
    outBase := Buffer.writeAt s.outBase s.fragHeader (Word.toBytes (len ||| eormask)) }
  let len := BitVec.ofNat 32 s.outFinger
  match (Transport.writeit (s.outBase.take s.outFinger) len.toInt).run s.tcp with
  | (none, tcp) => (none, { s with tcp := tcp })
  | (some (), tcp) => (some (), { s with tcp := tcp, fragHeader := 0, outFinger := 4 })

/-- Store at `out_finger` and move it. -/
def storeOut (bs : List UInt8) (s : RecStrm) : RecStrm :=
  { s with
    outBase := Buffer.writeAt s.outBase s.outFinger bs
    outFinger := s.outFinger + bs.length }

def setFragSent (sent : Bool) (s : RecStrm) : RecStrm := { s with fragSent := sent }

def xdrrecPutlong (l : BitVec 32) : Fallible RecStrm Unit := do
  let full ← gets fun s => decide (s.outFinger + 4 > s.outBoundry)
  if full then do
    modify (setFragSent true)
    flushOut false
    modify (storeOut (Word.toBytes l))
  else modify (storeOut (Word.toBytes l))

/-- The loop of `xdrrec_putbytes`. -/
def putbytesLoop : Nat → List UInt8 → Fallible RecStrm Unit
  | _, [] => pure ()
  | 0, _ :: _ => fail
  | fuel + 1, b :: bs => do
      let addr := b :: bs
      let room ← gets fun s => s.outBoundry - s.outFinger
      let current := if addr.length < room then addr.length else room
      modify (storeOut (addr.take current))
      let full ← gets fun s => decide (s.outFinger = s.outBoundry)
      if full then do
        modify (setFragSent true)
        flushOut false
        putbytesLoop fuel (addr.drop current)
      else putbytesLoop fuel (addr.drop current)

def xdrrecPutbytes (addr : List UInt8) : Fallible RecStrm Unit :=
  putbytesLoop (addr.length + 2) addr

def xdrrecEndofrecord (sendnow : Bool) : Fallible RecStrm Unit := do
  let flush ← gets fun s => sendnow || s.fragSent || decide (s.outFinger + 4 ≥ s.outBoundry)
  if flush then do
    modify (setFragSent false)
    flushOut true
  else
    modify fun s =>
      let len := BitVec.ofNat 32 (s.outFinger - s.fragHeader - 4)
      { s with
        outBase := Buffer.writeAt s.outBase s.fragHeader (Word.toBytes (len ||| lastFragBit))
        fragHeader := s.outFinger
        outFinger := s.outFinger + 4 }

/-! ### Receiving -/

/-- The buffer with freshly read bytes in it, behind as many bytes as keep their
place in an XDR unit. -/
def refilled (tcp : Transport) (bs : List UInt8) (s : RecStrm) : RecStrm :=
  let i := s.inBoundry % bytesPerXdrUnit
  { s with
    tcp := tcp
    inBase := Buffer.writeAt s.inBase i bs
    inFinger := i
    inBoundry := i + bs.length }

/-- `fill_input_buf`. -/
def fillInputBuf : Fallible RecStrm Unit := fun s =>
  if s.nonblock then (none, s)
  else
    let i := s.inBoundry % bytesPerXdrUnit
    match (Transport.readit (BitVec.ofNat 32 (s.inSize - i)).toInt).run s.tcp with
    | (none, tcp) => (none, { s with tcp := tcp })
    | (some bs, tcp) => (some (), s.refilled tcp bs)

/-- Copy from `in_finger` on and move it. -/
def takeInput (n : Nat) : Fallible RecStrm (List UInt8) := fun s =>
  (some (Buffer.readAt s.inBase s.inFinger n), { s with inFinger := s.inFinger + n })

/-- The loop of `get_input_bytes`. -/
def getInputLoop : Nat → Nat → Fallible RecStrm (List UInt8)
  | _, 0 => pure []
  | 0, _ + 1 => fail
  | fuel + 1, n + 1 => do
      let len := n + 1
      let d ← gets fun s => s.inBoundry - s.inFinger
      if d = 0 then do
        fillInputBuf
        getInputLoop fuel len
      else do
        let current := if len < d then len else d
        let bs ← takeInput current
        let rest ← getInputLoop fuel (len - current)
        pure (bs ++ rest)

/-- `get_input_bytes`. -/
def getInputBytes (len : Nat) : Fallible RecStrm (List UInt8) := do
  let nonblock ← gets fun s => s.nonblock
  if nonblock then do
    let d ← gets fun s => s.inBoundry - s.inFinger
    require (¬ len > d)
    takeInput len
  else getInputLoop (2 * len) len

/-- `set_input_fragment`. -/
def setInputFragment : Fallible RecStrm Unit := do
  let nonblock ← gets fun s => s.nonblock
  require (nonblock = false)
  let bs ← getInputBytes 4
  let header := Word.ofBytes bs
  modify fun s => { s with lastFrag := !decide (header &&& lastFragBit = 0) }
  -- The sanity check: of all lengths only zero is certainly wrong.
  require (header ≠ 0)
  modify fun s => { s with fbtbc := (header &&& ~~~lastFragBit).toNat }

/-- The loop of `skip_input_bytes`. -/
def skipInputLoop : Nat → Nat → Fallible RecStrm Unit
  | _, 0 => pure ()
  | 0, _ + 1 => fail
  | fuel + 1, n + 1 => do
      let cnt := n + 1
      let current ← gets fun s => s.inBoundry - s.inFinger
      if current = 0 then do
        fillInputBuf
        skipInputLoop fuel cnt
      else do
        let current := if cnt < current then cnt else current
        modify fun s => { s with inFinger := s.inFinger + current }
        skipInputLoop fuel (cnt - current)

/-- `skip_input_bytes`. -/
def skipInputBytes (cnt : Nat) : Fallible RecStrm Unit := skipInputLoop (2 * cnt) cnt

/-- The loop of `xdrrec_getbytes`. -/
def getbytesLoop : Nat → Nat → Fallible RecStrm (List UInt8)
  | _, 0 => pure []
  | 0, _ + 1 => fail
  | fuel + 1, n + 1 => do
      let len := n + 1
      let current ← gets fun s => s.fbtbc
      if current = 0 then do
        let last ← gets fun s => s.lastFrag
        require (last = false)
        setInputFragment
        getbytesLoop fuel len
      else do
        let current := if len < current then len else current
        let bs ← getInputBytes current
        modify fun s => { s with fbtbc := s.fbtbc - current }
        let rest ← getbytesLoop fuel (len - current)
        pure (bs ++ rest)

def xdrrecGetbytes (len : Nat) : Fallible RecStrm (List UInt8) := getbytesLoop (2 * len + 1) len

def xdrrecGetlong : Fallible RecStrm (BitVec 32) := do
  let fast ← gets fun s => decide (s.fbtbc ≥ 4 ∧ s.inBoundry - s.inFinger ≥ 4)
  if fast then do
    let bs ← takeInput 4
    modify fun s => { s with fbtbc := s.fbtbc - 4 }
    pure (Word.ofBytes bs)
  else do
    let bs ← xdrrecGetbytes 4
    pure (Word.ofBytes bs)

def xdrrecInline (op : XdrOp) (len : Nat) : Fallible RecStrm (Option Nat) := fun s =>
  match op with
  | .encode =>
      if s.outFinger + len ≤ s.outBoundry then
        (some (some s.outFinger), { s with outFinger := s.outFinger + len })
      else (some none, s)
  | .decode =>
      if len ≤ s.fbtbc ∧ s.inFinger + len ≤ s.inBoundry then
        (some (some s.inFinger),
          { s with fbtbc := s.fbtbc - len, inFinger := s.inFinger + len })
      else (some none, s)
  | .free => (some none, s)

/-- The bytes between `in_finger` and `in_boundry`. -/
def buffered (s : RecStrm) : List UInt8 :=
  Buffer.readAt s.inBase s.inFinger (s.inBoundry - s.inFinger)

/-- Every byte that has not been consumed: buffered, then still to arrive. -/
def input (s : RecStrm) : List UInt8 := s.buffered ++ Transport.bytes s.tcp.arrivals

/-- The loop that `xdrrec_skiprecord` and `xdrrec_eof` share. -/
def skipRecordLoop : Nat → Fallible RecStrm Unit
  | 0 => fail
  | fuel + 1 => do
      let more ← gets fun s => decide (s.fbtbc > 0) || !s.lastFrag
      if more then do
        let cnt ← gets fun s => s.fbtbc
        skipInputBytes cnt
        modify fun s => { s with fbtbc := 0 }
        let last ← gets fun s => s.lastFrag
        if last then skipRecordLoop fuel
        else do
          setInputFragment
          skipRecordLoop fuel
      else pure ()

/-- Every round of the loop but the first and the last consumes a header. -/
def skipRecord : Fallible RecStrm Unit := fun s => skipRecordLoop (s.input.length + 2) s

/-- `realloc_stream`. -/
def reallocStream (size : Nat) : Fallible RecStrm Unit := fun s =>
  if size > s.recvsize then
    if s.host.reallocs size then
      (some (), { s with
        inBase := s.inBase ++ (List.range' s.inBase.length (size - s.inBase.length)).map s.host.junk
        inBoundry := size
        recvsize := size
        inSize := size })
    else (none, s)
  else (some (), s)

/-- The part of `__xdrrec_getrec` that reads the body of a fragment. -/
def getrecBody (expectdata : Bool) (s : RecStrm) : (Bool × XprtStat) × RecStrm :=
  match (Transport.readit (s.inReclen - s.inReceived)).run s.tcp with
  | (none, tcp) => ((false, .died), { s with tcp := tcp })
  | (some bs, tcp) =>
      let s := { s with tcp := tcp, inBase := Buffer.writeAt s.inBase s.inReceived.toNat bs }
      if bs = [] then ((false, if expectdata then .died else .idle), s)
      else
        let s := { s with inReceived := s.inReceived + bs.length }
        if s.inReceived = s.inReclen then
          let s := { s with inHaveheader := false, inHdrlen := 0 }
          if s.lastFrag then
            ((true, .moreReqs), { s with
              fbtbc := s.inReclen.toNat
              inBoundry := s.inReclen.toNat
              inFinger := 0
              inReclen := 0
              inReceived := 0 })
          else ((false, .moreReqs), s)
        else ((false, .moreReqs), s)

/-- The fragment lengths that `__xdrrec_getrec` refuses. -/
def headerRefused (s : RecStrm) (fraglen : Nat) : Prop :=
  fraglen = 0 ∨ fraglen > s.inMaxrec ∨ intAdd s.inReclen fraglen > s.inMaxrec

instance (s : RecStrm) (fraglen : Nat) : Decidable (s.headerRefused fraglen) :=
  inferInstanceAs (Decidable (_ ∨ _ ∨ _))

/-- The part of `__xdrrec_getrec` behind a complete header. -/
def getrecHeader (expectdata : Bool) (s : RecStrm) : (Bool × XprtStat) × RecStrm :=
  let header := Word.ofBytes s.inHeader
  let fraglen := (header &&& ~~~lastFragBit).toNat
  if s.headerRefused fraglen then ((false, .died), s)
  else
    let s := { s with inReclen := intAdd s.inReclen fraglen }
    match (reallocStream (BitVec.ofInt 32 s.inReclen).toNat).run s with
    | (none, s) => ((false, .died), s)
    | (some (), s) =>
        if header &&& lastFragBit ≠ 0 then getrecBody expectdata { s with lastFrag := true }
        else getrecBody expectdata s

/-- `__xdrrec_getrec`: the answer and `*statp`. -/
def getrec (expectdata : Bool) (s : RecStrm) : (Bool × XprtStat) × RecStrm :=
  if s.inHaveheader then getrecBody expectdata s
  else
    match (Transport.readit (4 - s.inHdrlen)).run s.tcp with
    | (none, tcp) => ((false, .died), { s with tcp := tcp })
    | (some bs, tcp) =>
        if bs = [] then ((false, if expectdata then .died else .idle), { s with tcp := tcp })
        else
          let s := { s with
            tcp := tcp
            inHeader := Buffer.writeAt s.inHeader s.inHdrlen bs
            inHdrlen := s.inHdrlen + bs.length }
          if s.inHdrlen < 4 then ((false, .moreReqs), s)
          else getrecHeader expectdata s

def xdrrecSkiprecord : Fallible RecStrm Unit := fun s =>
  if s.nonblock then
    match getrec false s with
    | ((true, _), s) => (some (), { s with fbtbc := 0 })
    | ((false, xstat), s) =>
        if s.inFinger = s.inBoundry ∧ xstat = .moreReqs then (some (), { s with fbtbc := 0 })
        else (none, s)
  else
    match skipRecord.run s with
    | (none, s) => (none, s)
    | (some (), s) => (some (), { s with lastFrag := false })

/-- `xdrrec_eof`. -/
def xdrrecEof (s : RecStrm) : Bool × RecStrm :=
  match skipRecord.run s with
  | (none, s) => (true, s)
  | (some (), s) => (decide (s.inFinger = s.inBoundry), s)

instance : XdrOps RecStrm where
  getlong := xdrrecGetlong
  putlong := xdrrecPutlong
  getbytes := xdrrecGetbytes
  putbytes := xdrrecPutbytes
  inline := xdrrecInline
  load op buf n s :=
    match op with
    | .decode => Buffer.readAt s.inBase buf n
    | _ => Buffer.readAt s.outBase buf n
  store buf bs s := { s with outBase := Buffer.writeAt s.outBase buf bs }

end RecStrm
end OncRpc
