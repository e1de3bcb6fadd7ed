import FlashProgrammer.Proofs.Bench.FlashTransfers
import FlashProgrammer.Proofs.Bench.LoopGate
import FlashProgrammer.Proofs.Programmer.Reachable

/-!
# The packets of a request

Serving the flash endpoint takes packets from the front of those that wait: one for the
request, and for a write those that bring its data.  `taken?` is what is about to be taken,
and `Ready packets s` says that some packets wait in `s` and nothing was taken of the first
yet.

Only the data of a write takes packets, and nothing else that a request does touches them.
So `Ready.service` finds all that is gone at the front, and the rest still waits.
-/

namespace FlashProgrammer.Bench

open Flash Protocol Usb Programmer

variable {β ρ : Type}

/-! ## What leaves the packets alone -/

theorem out_of_usb {w w' : Fifos β ρ} (h : w'.usb = w.usb) :
    (flashSide w').out = (flashSide w).out :=
  congrArg (fun usb : FifoController => usb.out.get .flash) h

theorem out_refuse (dir : Direction) (s : Station (Fifos β ρ)) :
    (flashSide (refuse dir s).2.hw).out = (flashSide s.2.hw).out := rfl

theorem out_sendPackets (packets : List (List UInt8)) (p : Link (Fifos β ρ)) :
    (flashSide (p.sendPackets flashEndpoint .flash packets).2.hw).out = (flashSide p.hw).out := by
  induction packets generalizing p with
  | nil => rfl
  | cons packet packets ih =>
    simp only [Link.sendPackets, awaitCollected_flash]
    rw [ih]
    show (flashSide (tell (.txReady .flash false) (writeFifo .flash packet p.hw))).out = _
    rw [txReady_flash, writeFifo_flash]
    rfl

theorem out_write (data : List UInt8) (p : Link (Fifos β ρ)) :
    (flashSide (p.write flashEndpoint data).2.hw).out = (flashSide p.hw).out := by
  have hflash : Endpoint.ofByte? flashEndpoint = some .flash := rfl
  have hcontrol : ¬Endpoint.flash = .control := by decide
  rw [Link.write, Link.bulkEndpoint]
  simp only [hflash, if_neg hcontrol]
  split
  · rfl
  · next e he =>
    split at he
    · split at he
      · cases he
      · cases he
        exact out_sendPackets (packets data) p
    · cases he

section Serving

variable [Spi.Bus β]

theorem out_servePage (page : Nat) (s : Station (Fifos β ρ)) :
    (flashSide (servePage page s).2.hw).out = (flashSide s.2.hw).out := by
  rw [servePage]
  rcases s.1.selected with _ | ⟨slot, g⟩
  · rfl
  · simp only
    split
    · have hread := usb_readIdle slot s.1.budget.flashPolls (g.pageAddress page) g.pageLength
        s.2.hw
      generalize readIdle slot _ _ _ s.2.hw = read at hread ⊢
      obtain ⟨_ | bs, w⟩ := read
      · exact (out_refuse .toHost (s.1, { s.2 with hw := w })).trans (out_of_usb hread)
      · exact (out_write bs { s.2 with hw := w }).trans (out_of_usb hread)
    · rfl

theorem out_program (slot : Slot) (g : Geometry) (page count : Nat) (s : Station (Fifos β ρ)) :
    (flashSide (program slot g page count s).2.hw).out = (flashSide s.2.hw).out := by
  have hstart := usb_modify slot
    (.pageProgram (g.pageAddress page) (s.1.page.take count)) s.2.hw
  rw [program, startPageProgram]
  generalize Flash.modify slot _ s.2.hw = started at hstart ⊢
  obtain ⟨_ | _, w⟩ := started <;> exact out_of_usb hstart

theorem out_respond [ResetLine ρ] (r : Request) (s : Station (Fifos β ρ)) :
    (flashSide (respond r s).2.hw).out = (flashSide s.2.hw).out := by
  have hanswer := usb_answer r s.1 s.2.hw
  rw [respond]
  generalize s.1.answer r s.2.hw = answered at hanswer ⊢
  obtain ⟨_ | response, s', w⟩ := answered
  · exact out_of_usb hanswer
  · exact (out_write response.encode { s.2 with hw := w }).trans (out_of_usb hanswer)

theorem out_acceptPage_of_refused {page count : Nat} {s : Station (Fifos β ρ)}
    (h : s.1.takesData page count = false) :
    (flashSide (acceptPage page count s).2.hw).out = (flashSide s.2.hw).out := by
  rw [acceptPage]
  split
  · next slot g hsel hjob =>
    rw [takesData, hsel, hjob] at h
    rw [if_pos (by simpa only [Bool.not_eq_false'] using h)]
    rfl
  · rfl

theorem out_acceptPage_of_taken {page count : Nat} {s : Station (Fifos β ρ)}
    (hpage : s.1.page.length = maxPageLength) (h : s.1.takesData page count = true) :
    (flashSide (acceptPage page count s).2.hw).out =
      (flashSide (s.2.gather flashEndpoint count count).2.hw).out := by
  rw [takesData] at h
  rw [acceptPage]
  cases hsel : s.1.selected with
  | none =>
    rw [hsel] at h
    cases h
  | some selected =>
    obtain ⟨slot, g⟩ := selected
    cases hjob : s.1.job.at? with
    | some active =>
      rw [hsel, hjob] at h
      cases h
    | none =>
      have hwanted : (count = 0 || g.pageLength < count || g.pageCount ≤ page) = false := by
        rw [hsel, hjob] at h
        simpa using h
      have hneed : (s.1.page.take count).length = count := by
        simp only [Bool.or_eq_false_iff, decide_eq_false_iff_not] at hwanted
        exact length_take_page hpage g (by omega)
      simp only [hwanted, Link.fill, hneed]
      rcases s.2.gather flashEndpoint count count with ⟨⟨bytes, _ | _⟩, q⟩
      · rfl
      · exact out_program slot g page count _

/-! ## Taking packets -/

/-- What is taken when the flash endpoint is served. -/
structure Taken where
  /-- The packet that is decoded. -/
  frame : List UInt8
  /-- The bytes that come for the request. -/
  data : List UInt8
  /-- The packets that are gone afterwards, oldest first. -/
  packets : List (List UInt8)
deriving DecidableEq, Repr

/-- What was taken belongs to one request: its packet, and for a write those that brought its
data. -/
inductive Taken.Belongs : Taken → Prop where
  | alone (frame : List UInt8) : Belongs ⟨frame, [], [frame]⟩
  | withData {frame data : List UInt8} {page count : PageNumber} {behind : List (List UInt8)}
      (hwrite : Request.decode frame = .ok (.write page count))
      (hdata : Feeds behind count.val data) : Belongs ⟨frame, data, frame :: behind⟩

/-- A request takes its data from the front of what waits. -/
theorem Offers.serve [ResetLine ρ] {s : Station (Fifos β ρ)} {waiting : List (List UInt8)}
    (h : Offers s.2 waiting) (hfits : ∀ packet ∈ waiting, packet.length ≤ maxPacket)
    (hs : Reachable s.1) {frame : List UInt8} {r : Request} (hframe : Request.decode frame = .ok r) :
    ∃ behind rest, waiting = behind ++ rest ∧
      Taken.Belongs ⟨frame, dataOf r s, frame :: behind⟩ ∧
      (flashSide (serve r s).2.hw).out = ⟨rest.map List.toArray, 0⟩ := by
  have hanswered : ∀ r', (flashSide (respond r' s).2.hw).out = ⟨waiting.map List.toArray, 0⟩ :=
    fun r' => (out_respond r' s).trans h.fifo_eq
  cases r with
  | read page =>
    exact ⟨[], waiting, rfl, .alone frame, (out_servePage page.val s).trans h.fifo_eq⟩
  | write page count =>
    cases htakes : s.1.takesData page.val count.val with
    | false =>
      refine ⟨[], waiting, rfl, ?_, (out_acceptPage_of_refused htakes).trans h.fifo_eq⟩
      simp only [dataOf, htakes]
      exact .alone frame
    | true =>
      obtain ⟨taken, rest, hsplit, hfeeds, hside⟩ := h.gather hfits (Nat.le_refl count.val)
      refine ⟨taken, rest, hsplit, ?_, ?_⟩
      · simp only [dataOf, htakes, if_true]
        exact .withData hframe hfeeds
      · exact (out_acceptPage_of_taken hs.wellFormed.page_length htakes).trans
          (congrArg FlashSide.out hside)
  | deviceCount | listDevice | targetDevice | erase | verify | resetTarget =>
    exact ⟨[], waiting, rfl, .alone frame, hanswered _⟩

end Serving

/-! ## Serving once -/

/-- The packets that waited and wait no longer. -/
def gone (w w' : Fifos β ρ) : List (List UInt8) :=
  ((packetsIn w).take ((packetsIn w).length - (packetsIn w').length)).map Array.toList

theorem gone_of_append {w w' : Fifos β ρ} {taken rest : List (List UInt8)}
    (h : packetsIn w = (taken ++ rest).map List.toArray)
    (h' : packetsIn w' = rest.map List.toArray) : gone w w' = taken := by
  have hcount : (taken ++ rest).length - rest.length = taken.length := by
    rw [List.length_append]
    omega
  rw [gone, h, h', List.length_map, List.length_map, hcount, ← List.map_take, List.map_map,
    List.take_left]
  exact List.map_id taken

/-- Packets wait on a programmer that the host has configured. -/
structure Ready (packets : List (List UInt8)) (s : Station (Fifos β ρ)) : Prop where
  reachable : Reachable s.1
  lifecycle_eq : s.2.device.lifecycle = .configured
  fifo_eq : (flashSide s.2.hw).out = ⟨packets.map List.toArray, 0⟩
  fits : ∀ packet ∈ packets, packet.length ≤ maxPacket

section Serving

variable {packets : List (List UInt8)} {s : Station (Fifos β ρ)} {t : Taken}

/-- The oldest packet is read whole. -/
theorem Ready.readPacket {packet : List UInt8} {waiting : List (List UInt8)}
    (h : Ready (packet :: waiting) s) (hopen : (gate s.2).Open) :
    ∃ q, s.2.readPacket flashEndpoint maxPacket = (.ok packet, q) ∧ Offers q waiting := by
  have hoffers : Offers s.2 (packet :: waiting) := ⟨h.lifecycle_eq, hopen.2.1, h.fifo_eq⟩
  have hlength := h.fits packet List.mem_cons_self
  obtain ⟨q, hread, hdevice, hside⟩ := hoffers.readPacket hlength maxPacket
  rw [List.take_of_length_le hlength] at hread
  exact ⟨q, hread, hoffers.of_device hdevice (congrArg FlashSide.out hside)⟩

variable [Spi.Bus β] [ResetLine ρ]

/-- What is about to be taken, if a packet waits and the flash endpoint is not halted. -/
def taken? (s : Station (Fifos β ρ)) : Option Taken :=
  match s.2.rxPending flashEndpoint with
  | (false, _) => none
  | (true, link) =>
    match link.readPacket flashEndpoint maxPacket with
    | (.error _, _) => none
    | (.ok frame, link) =>
      some
        { frame
          data :=
            match Request.decode frame with
            | .ok r => dataOf r (s.1, link)
            | .error _ => []
          packets := gone s.2.hw (service s).2.hw }

/-- Something is taken exactly if the gate is open. -/
theorem taken?_isSome (s : Station (Fifos β ρ)) :
    (taken? s).isSome = decide (gate s.2).Open := by
  rw [taken?, rxPending_eq]
  cases hopen : decide (gate s.2).Open with
  | false => rfl
  | true =>
    obtain ⟨bs, q, hread⟩ := readPacket_of_open (of_decide_eq_true hopen) maxPacket
    simp only [hread]
    rfl

/-- Whatever the oldest packet decodes to, what is taken belongs to it. -/
theorem Ready.takes {packet : List UInt8} {waiting : List (List UInt8)}
    (h : Ready (packet :: waiting) s) (hopen : (gate s.2).Open) :
    ∃ behind rest data, waiting = behind ++ rest ∧
      taken? s = some ⟨packet, data, packet :: behind⟩ ∧
      Taken.Belongs ⟨packet, data, packet :: behind⟩ ∧
      Reachable (Programmer.service s).1 ∧
      (flashSide (Programmer.service s).2.hw).out = ⟨rest.map List.toArray, 0⟩ := by
  obtain ⟨q, hread, hq⟩ := h.readPacket hopen
  have hgone : ∀ {behind rest : List (List UInt8)}, waiting = behind ++ rest →
      (flashSide (Programmer.service s).2.hw).out = ⟨rest.map List.toArray, 0⟩ →
      gone s.2.hw (Programmer.service s).2.hw = packet :: behind := by
    intro behind rest hsplit hout
    refine gone_of_append ?_ (congrArg OutFifo.packets hout)
    rw [List.cons_append, ← hsplit]
    exact congrArg OutFifo.packets h.fifo_eq
  rw [taken?, rxPending_eq, decide_eq_true hopen]
  simp only [hread]
  cases hdecode : Request.decode packet with
  | error e =>
    have hserviced : Programmer.service s = refuse .toHost (s.1, q) := by
      rw [Programmer.service, rxPending_eq, decide_eq_true hopen]
      simp only [hread, hdecode]
    have hout : (flashSide (Programmer.service s).2.hw).out = ⟨waiting.map List.toArray, 0⟩ := by
      rw [hserviced]
      exact hq.fifo_eq
    refine ⟨[], waiting, [], rfl, ?_, .alone packet, ?_, hout⟩
    · rw [hgone (List.nil_append waiting).symm hout]
    · rw [hserviced]
      exact h.reachable
  | ok r =>
    have hserviced : Programmer.service s = Programmer.serve r (s.1, q) := by
      rw [Programmer.service, rxPending_eq, decide_eq_true hopen]
      simp only [hread, hdecode]
    obtain ⟨behind, rest, hsplit, hbelongs, hserved⟩ := Offers.serve (s := (s.1, q)) hq
      (fun packet hin => h.fits packet (List.mem_cons_of_mem _ hin)) h.reachable hdecode
    have hout : (flashSide (Programmer.service s).2.hw).out = ⟨rest.map List.toArray, 0⟩ := by
      rw [hserviced]
      exact hserved
    refine ⟨behind, rest, dataOf r (s.1, q), hsplit, ?_, hbelongs, ?_, hout⟩
    · rw [hgone hsplit hout]
    · rw [hserviced]
      exact .served r (s.1, q) h.reachable

/-- Packets are taken from the front, and they belong together. -/
theorem Ready.service (h : Ready packets s) (ht : taken? s = some t) :
    ∃ rest, packets = t.packets ++ rest ∧ t.Belongs ∧ Ready rest (Programmer.service s) := by
  have hopen : (gate s.2).Open := by
    have hsome := taken?_isSome s
    rw [ht] at hsome
    exact of_decide_eq_true hsome.symm
  cases packets with
  | nil => exact absurd (congrArg OutFifo.packets h.fifo_eq) hopen.2.2
  | cons packet waiting =>
    obtain ⟨behind, rest, data, hsplit, htakes, hbelongs, hreachable, hout⟩ := h.takes hopen
    obtain rfl := Option.some.inj (ht.symm.trans htakes)
    refine ⟨rest, congrArg (packet :: ·) hsplit, hbelongs, hreachable, ?_, hout, ?_⟩
    · rw [(retains_service s).lifecycle_eq]
      exact h.lifecycle_eq
    · intro packet hin
      exact h.fits packet (List.mem_cons_of_mem _ (hsplit ▸ List.mem_append_right behind hin))

end Serving

end FlashProgrammer.Bench
