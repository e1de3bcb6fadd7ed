import FlashProgrammer.Proofs.Bench.FifoPackets
import FlashProgrammer.Proofs.Trace.Waiting
import Mathlib

/-!
# Bytes packed into accesses

Bytes go through a FIFO four at a time, and what is left of them as a half-word and a byte.  `pack`
cuts bytes up that way.  It loses none of them (`flatMap_bytes_pack`), and on any controller the
firmware accesses a FIFO exactly as `pack` says, in both directions (`adds_writeFifo`,
`adds_readFifo`).

On the bench the bytes that are written are staged in order, and the bytes that are read are the
next ones of the packet in front.  Reads that follow each other take the packet apart
(`readEach_eq`).
-/

namespace FlashProgrammer.Usb

/-- A value is made up again of its bytes. -/
theorem valueOfBytes_bytesOfValue (width : Width) (value : BitVec width.bits) :
    valueOfBytes width (bytesOfValue width value) = value := by
  have hlt : value.toNat < LittleEndian.bound width.bytes := by
    cases width <;> exact value.isLt
  rw [valueOfBytes, bytesOfValue, LittleEndian.decode_encode hlt, BitVec.ofNat_toNat,
    BitVec.setWidth_eq]

/-! ## Accesses -/

/-- One access to a FIFO: what went through it, and how wide it was. -/
structure Access where
  width : Width
  value : BitVec width.bits

namespace Access

/-- The bytes that went through. -/
def bytes (x : Access) : List UInt8 := bytesOfValue x.width x.value

/-- The access that carries some bytes. -/
def ofBytes (width : Width) (bs : List UInt8) : Access := ⟨width, valueOfBytes width bs⟩

theorem bytes_ofBytes (width : Width) {bs : List UInt8} (h : bs.length = width.bytes) :
    (ofBytes width bs).bytes = bs :=
  bytesOfValue_valueOfBytes width h

theorem ofBytes_bytesOfValue (width : Width) (value : BitVec width.bits) :
    ofBytes width (bytesOfValue width value) = ⟨width, value⟩ := by
  rw [ofBytes, valueOfBytes_bytesOfValue]

end Access

/-- Bytes cut up into accesses. -/
def pack : List UInt8 → List Access
  | [] => []
  | [a] => [.ofBytes .byte [a]]
  | [a, b] => [.ofBytes .half [a, b]]
  | [a, b, c] => [.ofBytes .half [a, b], .ofBytes .byte [c]]
  | a :: b :: c :: d :: rest => .ofBytes .word [a, b, c, d] :: pack rest

/-- No byte is lost, and none changes places. -/
theorem flatMap_bytes_pack (bs : List UInt8) : (pack bs).flatMap Access.bytes = bs := by
  fun_induction pack bs with
  | case1 => rfl
  | case2 a => rw [List.flatMap_singleton, Access.bytes_ofBytes .byte rfl]
  | case3 a b => rw [List.flatMap_singleton, Access.bytes_ofBytes .half rfl]
  | case4 a b c =>
    rw [List.flatMap_cons, List.flatMap_singleton, Access.bytes_ofBytes .half rfl,
      Access.bytes_ofBytes .byte rfl]
    rfl
  | case5 a b c d rest ih =>
    rw [List.flatMap_cons, ih, Access.bytes_ofBytes .word rfl]
    rfl

theorem pack_word {bs : List UInt8} (h : bs.length = 4) (rest : List UInt8) :
    pack (bs ++ rest) = .ofBytes .word bs :: pack rest := by
  obtain ⟨a, b, c, d, rfl⟩ := List.length_eq_four.mp h
  rfl

theorem pack_half_byte {bs b : List UInt8} (hbs : bs.length = 2) (hb : b.length = 1) :
    pack (bs ++ b) = [.ofBytes .half bs, .ofBytes .byte b] := by
  obtain ⟨x, y, rfl⟩ := List.length_eq_two.mp hbs
  obtain ⟨z, rfl⟩ := List.length_eq_one_iff.mp hb
  rfl

end FlashProgrammer.Usb

namespace FlashProgrammer.Trace

open Usb

/-- What a trace keeps of an access to the FIFO of an endpoint. -/
def accessEvent (ep : Endpoint) : Direction → Access → Event
  | .toDevice, x => .usb (.fifoRead ep x.width) x.value
  | .toHost, x => .usb (.fifoWrite ep x.width x.value) ()

variable {ω : Type} [Controller ω]

theorem adds_take (ep : Endpoint) (width : Width) (w : Traced ω) :
    Adds [accessEvent ep .toDevice (.ofBytes width (take ep width w).1)] w (take ep width w).2 := by
  have haccess : Access.ofBytes width (take ep width w).1 =
      ⟨width, (Controller.perform (.fifoRead ep width) w).1⟩ :=
    Access.ofBytes_bytesOfValue width _
  rw [haccess]
  exact adds_perform (.fifoRead ep width) w

theorem adds_put (ep : Endpoint) (width : Width) (bs : List UInt8) (w : Traced ω) :
    Adds [accessEvent ep .toHost (.ofBytes width bs)] w (put ep width bs w) :=
  adds_perform (.fifoWrite ep width (valueOfBytes width bs)) w

/-- Bytes are written as they are packed, and nothing else is done. -/
theorem adds_writeFifo (ep : Endpoint) (data : List UInt8) (w : Traced ω) :
    Adds ((pack data).map (accessEvent ep .toHost)) w (writeFifo ep data w) := by
  fun_induction writeFifo ep data w with
  | case1 w => exact adds_refl w
  | case2 a w => exact adds_put ep .byte [a] w
  | case3 a b w => exact adds_put ep .half [a, b] w
  | case4 a b c w => exact (adds_put ep .half [a, b] w).trans (adds_put ep .byte [c] _)
  | case5 a b c d rest w ih => exact (adds_put ep .word [a, b, c, d] w).trans ih

/-- Bytes are read as they are packed, and nothing else is done. -/
theorem adds_readFifo (ep : Endpoint) (n : Nat) (w : Traced ω) :
    Adds ((pack (readFifo ep n w).1).map (accessEvent ep .toDevice)) w (readFifo ep n w).2 := by
  fun_induction readFifo ep n w with
  | case1 w => exact adds_refl w
  | case2 w => exact adds_take ep .byte w
  | case3 w => exact adds_take ep .half w
  | case4 w bs w' hbs b w'' hb =>
    have hhalf := adds_take ep .half w
    have hbyte := adds_take ep .byte w'
    have hlength := length_take ep .half w
    have hlength' := length_take ep .byte w'
    rw [hbs] at hhalf hlength
    rw [hb] at hbyte hlength'
    rw [pack_half_byte hlength hlength']
    exact hhalf.trans hbyte
  | case5 n w bs w' hbs rest w'' hrest ih =>
    have hword := adds_take ep .word w
    have hlength := length_take ep .word w
    rw [hbs] at hword hlength
    rw [hrest] at ih
    rw [pack_word hlength, List.map_cons]
    exact hword.trans ih

end FlashProgrammer.Trace

namespace FlashProgrammer.Bench

open Usb Trace

/-! ## The widths -/

theorem map_width_pack (bs : List UInt8) :
    (pack bs).map Access.width = accessWidths bs.length := by
  fun_induction pack bs with
  | case1 | case2 | case3 | case4 => rfl
  | case5 a b c d rest ih => exact congrArg (Width.word :: ·) ih

/-- Whole words come first, then a half-word if two bytes or more are left, then a byte if the
number is odd. -/
theorem accessWidths_eq (n : Nat) :
    accessWidths n =
      List.replicate (n / 4) .word ++ (if 2 ≤ n % 4 then [.half] else []) ++
        if n % 2 = 1 then [.byte] else [] := by
  fun_induction accessWidths n with
  | case1 | case2 | case3 | case4 => rfl
  | case5 n ih =>
    have hdiv : (n + 4) / 4 = n / 4 + 1 := by omega
    have hmod : (n + 4) % 4 = n % 4 := by omega
    have hodd : (n + 4) % 2 = n % 2 := by omega
    rw [ih, hdiv, hmod, hodd]
    rfl

/-! ## The FIFOs of the bench -/

namespace OutFifo

/-- The FIFO after some bytes were taken. -/
def advance (f : OutFifo) (n : Nat) : OutFifo := { f with cursor := f.cursor + n }

theorem left_advance (f : OutFifo) (n : Nat) : (f.advance n).left = f.left - n := by
  simp only [left, advance]
  omega

theorem ahead_advance (f : OutFifo) (n : Nat) : (f.advance n).ahead = f.ahead.drop n := by
  simp only [ahead, advance, List.drop_drop]

end OutFifo

namespace FifoController

/-- The controller with more bytes staged and more widths on record. -/
def added (ep : Endpoint) (bs : List UInt8) (widths : List Width) (c : FifoController) :
    FifoController :=
  { c.setInto ep { c.into.get ep with staged := (c.into.get ep).staged ++ bs } with
    widths := c.widths.append widths }

theorem added_added (ep : Endpoint) (bs bs' : List UInt8) (widths widths' : List Width)
    (c : FifoController) :
    (c.added ep bs widths).added ep bs' widths' = c.added ep (bs ++ bs') (widths ++ widths') := by
  have hwidths : (c.widths.append widths).append widths' = c.widths.append (widths ++ widths') := by
    simp [Record.append]
  simp only [added, setInto, PerEndpoint.get_set_self, PerEndpoint.set_set, List.append_assoc,
    hwidths]

theorem added_nil (ep : Endpoint) (c : FifoController) : c.added ep [] [] = c := by
  have hinto : c.into.set ep (c.into.get ep) = c.into := PerEndpoint.set_get ..
  simp only [added, setInto, List.append_nil]
  rw [hinto]
  rfl

/-- One access stages the bytes that it carries. -/
theorem put_eq (ep : Endpoint) (width : Width) {bs : List UInt8} (h : bs.length = width.bytes)
    (c : FifoController) : put ep width bs c = c.added ep bs [width] := by
  have hbytes := bytesOfValue_valueOfBytes width h
  show c.fifoWrite ep width (valueOfBytes width bs) = _
  simp only [fifoWrite, hbytes]
  rfl

/-- Bytes are staged in order, however they are accessed. -/
theorem writeFifo_eq (ep : Endpoint) (data : List UInt8) (c : FifoController) :
    writeFifo ep data c = c.added ep data (accessWidths data.length) := by
  fun_induction writeFifo ep data c with
  | case1 c => exact (added_nil ep c).symm
  | case2 a c => exact put_eq ep .byte rfl c
  | case3 a b c => exact put_eq ep .half rfl c
  | case4 a b c w =>
    rw [put_eq ep .half rfl, put_eq ep .byte rfl, added_added]
    rfl
  | case5 a b c d rest w ih =>
    rw [ih, put_eq ep .word rfl, added_added]
    rfl

/-- Bytes that are left are read as they were sent. -/
theorem readFifo_of_le {ep : Endpoint} {n : Nat} {c : FifoController}
    (h : n ≤ (c.out.get ep).left) :
    readFifo ep n c =
      ((c.out.get ep).ahead.take n,
        c.taken ep ((c.out.get ep).advance n) (accessWidths n)) := by
  rw [readFifo_eq, OutFifo.take_of_le h]
  rfl

end FifoController

/-- Reads one number of bytes after the other. -/
def readEach {ω : Type} [Controller ω] (ep : Endpoint) :
    (sizes : List Nat) → ω → List (List UInt8) × ω
  | [], w => ([], w)
  | n :: sizes, w =>
    let (bs, w) := readFifo ep n w
    let (pieces, w) := readEach ep sizes w
    (bs :: pieces, w)

/-- Reads that follow each other take the packet in front apart, from where it was begun. -/
theorem readEach_eq (ep : Endpoint) (sizes : List Nat) {c : FifoController}
    (h : sizes.sum ≤ (c.out.get ep).left) :
    (readEach ep sizes c).1.flatten = (c.out.get ep).ahead.take sizes.sum ∧
      (readEach ep sizes c).1.map List.length = sizes ∧
      (readEach ep sizes c).2 =
        c.taken ep ((c.out.get ep).advance sizes.sum) (sizes.flatMap accessWidths) := by
  induction sizes generalizing c with
  | nil => exact ⟨List.take_zero.symm, rfl, (FifoController.taken_self ep c).symm⟩
  | cons n sizes ih =>
    rw [List.sum_cons] at h
    have hread : readFifo ep n c =
        ((c.out.get ep).ahead.take n, c.taken ep ((c.out.get ep).advance n) (accessWidths n)) :=
      FifoController.readFifo_of_le (by omega)
    have hout := FifoController.get_out_taken ep ((c.out.get ep).advance n) (accessWidths n) c
    obtain ⟨hflatten, hlengths, hlast⟩ :=
      ih (c := c.taken ep ((c.out.get ep).advance n) (accessWidths n)) (by
        rw [hout, OutFifo.left_advance]
        omega)
    rw [hout, OutFifo.ahead_advance] at hflatten
    rw [hout, FifoController.taken_taken] at hlast
    have hlength : ((c.out.get ep).ahead.take n).length = n := by
      rw [List.length_take, OutFifo.length_ahead]
      omega
    simp only [readEach, hread, List.flatten_cons, List.map_cons, List.sum_cons, List.flatMap_cons]
    refine ⟨?_, ?_, ?_⟩
    · rw [hflatten, ← List.take_add]
    · rw [hlength, hlengths]
    · rw [hlast, OutFifo.advance, OutFifo.advance, OutFifo.advance, Nat.add_assoc]

/-- No byte is lost on the way through a FIFO, and none changes places.

Bytes go in whole words, then in a half-word if two bytes or more are left, then in a byte if their
number is odd.  Whatever the controller is, a write and a read make these accesses and do nothing
else, and the accesses carry the bytes in order.

On the bench, the bytes of a write are staged behind those staged before.  As long as the packet in
front has that many bytes left, the bytes of a read are the next ones, and the FIFO moves on by as
many.  So reads of any sizes return pieces of these sizes, which follow each other without a gap. -/
theorem packing_lossless (ep : Endpoint) :
    (∀ n, accessWidths n =
      List.replicate (n / 4) .word ++ (if 2 ≤ n % 4 then [.half] else []) ++
        if n % 2 = 1 then [.byte] else []) ∧
    (∀ bs, (pack bs).map Access.width = accessWidths bs.length ∧
      (pack bs).flatMap Access.bytes = bs) ∧
    (∀ (ω : Type) [Controller ω] (w : Traced ω),
      (∀ data, Adds ((pack data).map (accessEvent ep .toHost)) w (writeFifo ep data w)) ∧
      ∀ n, (readFifo ep n w).1.length = n ∧
        Adds ((pack (readFifo ep n w).1).map (accessEvent ep .toDevice)) w (readFifo ep n w).2) ∧
    ∀ c : FifoController,
      (∀ data, writeFifo ep data c = c.added ep data (accessWidths data.length)) ∧
      (∀ n, n ≤ (c.out.get ep).left →
        readFifo ep n c =
          ((c.out.get ep).ahead.take n,
            c.taken ep ((c.out.get ep).advance n) (accessWidths n))) ∧
      ∀ sizes : List Nat, sizes.sum ≤ (c.out.get ep).left →
        (readEach ep sizes c).1.flatten = (c.out.get ep).ahead.take sizes.sum ∧
        (readEach ep sizes c).1.map List.length = sizes ∧
        (readEach ep sizes c).2 =
          c.taken ep ((c.out.get ep).advance sizes.sum) (sizes.flatMap accessWidths) := by
  refine ⟨accessWidths_eq, fun bs => ⟨map_width_pack bs, flatMap_bytes_pack bs⟩,
    fun ω _ w => ⟨fun data => adds_writeFifo ep data w, fun n => ?_⟩, fun c => ⟨?_, ?_, ?_⟩⟩
  · exact ⟨length_readFifo ep n w, adds_readFifo ep n w⟩
  · exact fun data => FifoController.writeFifo_eq ep data c
  · exact fun n hn => FifoController.readFifo_of_le hn
  · exact fun sizes hsizes => readEach_eq ep sizes hsizes

/-- A packet of seven bytes in two reads. -/
example :
    let c := ({} : FifoController).queue .flash [1, 2, 3, 4, 5, 6, 7]
    (readEach .flash [3, 4] c).1 = [[1, 2, 3], [4, 5, 6, 7]] ∧
      (readEach .flash [3, 4] c).2.widths.toList = [.half, .byte, .word] := by
  decide +kernel

end FlashProgrammer.Bench
