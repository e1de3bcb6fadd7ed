import FlashProgrammer.Bench.Rig
import FlashProgrammer.Proofs.Flash.CheckedGeometry
import FlashProgrammer.Proofs.Programmer.AnsweredFrames

/-!
# Requests are served in range

The functions of this module are those that serve a request, with every operation checked that can
leave its range: sums and products of 32 bits, quotients, the front of a page buffer and numbers
of 24 bits.  A function has no result as soon as one check fails.

Each of them has the result of the function without checks.  The bounds are those of
`WellFormed`: the selected chip was identified, and what is outstanding or was written last
lies in it.  `serving_in_range` says it of every request on every reachable programmer.
-/

namespace FlashProgrammer

open Flash Protocol Usb

/-! ## What the host is told -/

/-- What the host is told of a chip, if its sizes have the widths of their fields. -/
def deviceInfo? (g : Geometry) : Option DeviceInfo := do
  let capacity ← Checked.word g.capacity
  let pageSize ← Checked.pageNumber g.pageLength
  let eraseSize ← Checked.pageNumber (min g.eraseSize PageNumber.max)
  return {
    size := UInt32.ofNat capacity
    manufacturer := g.manufacturer
    deviceType := g.deviceType
    pageSize
    eraseSize
    flags := provenanceFlags g.provenance }

theorem deviceInfo?_eq {g : Geometry} (h : Identified g) : deviceInfo? g = some (deviceInfo g) := by
  have hcapacity := h.capacity_le
  rw [maxCapacity] at hcapacity
  have hpage := g.pageLength_le
  have herase : min g.eraseSize PageNumber.max ≤ 0xFFFFFF := Nat.min_le_right _ _
  rw [deviceInfo?, Checked.word_of_lt (by omega), Checked.pageNumber_of_lt (by omega),
    Checked.pageNumber_of_lt (by omega)]
  rfl

/-- How an erase or write stands, if its position is a page number. -/
def eraseResponse? (status : EraseStatus) (position : Nat) : Option Response :=
  (Checked.pageNumber position).map (.erase status)

theorem eraseResponse?_eq (status : EraseStatus) {position : Nat} (h : position < addressReach) :
    eraseResponse? status position = some (eraseResponse status position) := by
  rw [eraseResponse?, Checked.pageNumber_of_lt h]
  rfl

namespace Programmer

/-! ## Answers -/

section Answering

variable {ω : Type} [Spi.Bus ω]

def listDevice? (number bus : UInt8) (w : ω) : Option (Response × ω) :=
  match Slot.find? number bus with
  | none => some (.listDevice .missing, w)
  | some slot => do
    let (g, w) := identify slot w
    let info ← deviceInfo? g
    return (.listDevice info, w)

theorem listDevice?_eq (number bus : UInt8) (w : ω) :
    listDevice? number bus w = some (listDevice number bus w) := by
  rw [listDevice?, listDevice]
  cases Slot.find? number bus with
  | none => rfl
  | some slot =>
    have hinfo := deviceInfo?_eq (identified_identify slot w)
    simp only [hinfo]
    rfl

def startBlock? (slot : Slot) (g : Geometry) (block : Nat) (w : ω) :
    Option (Except Fault Unit × ω) := do
  let address ← g.blockAddress? block
  return startBlockErase slot g.eraseOpcode address w

theorem startBlock?_eq {g : Geometry} (h : Identified g) {block : Nat}
    (hblock : block < g.eraseBlocks) (slot : Slot) (w : ω) :
    startBlock? slot g block w = some (startBlock slot g block w) := by
  rw [startBlock?, h.blockAddress?_eq hblock]
  rfl

def eraseStatus? (slot : Slot) (g : Geometry) (s : Programmer) (w : ω) :
    Option (Response × Programmer × ω) :=
  match isBusy slot w with
  | (.error _, w) => do
    let response ← eraseResponse? .invalid s.job.position
    return (response, s, w)
  | (.ok true, w) => do
    let response ← eraseResponse? .inProgress s.job.position
    return (response, s, w)
  | (.ok false, w) =>
    let done : Option (Response × Programmer × ω) := do
      let response ← eraseResponse? .complete s.job.position
      return (response, { s with job := .idle }, w)
    match s.job with
    | .erase _ next last =>
      if next ≤ last then do
        match ← startBlock? slot g next w with
        | (.ok _, w) =>
          let following ← Checked.word (next + 1)
          let response ← eraseResponse? .inProgress next
          return (response, { s with job := .erase next following last }, w)
        | (.error _, w) =>
          let response ← eraseResponse? .invalid next
          return (response, { s with job := .idle }, w)
      else done
    | _ => done

/-- The next block of a running erase is one of the chip. -/
theorem eraseStatus?_eq {s : Programmer} (hs : s.WellFormed) {slot : Slot} {g : Geometry}
    (hsel : s.selected = some (slot, g)) (w : ω) :
    eraseStatus? slot g s w = some (s.eraseStatus slot g w) := by
  have hposition : ∀ status, eraseResponse? status s.job.position =
      some (eraseResponse status s.job.position) :=
    fun status => eraseResponse?_eq status hs.position_lt
  rw [eraseStatus?, eraseStatus]
  rcases isBusy slot w with ⟨_ | _ | _, w'⟩
  · simp only [hposition]
    rfl
  · simp only [hposition]
    cases hjob : s.job with
    | idle | write page => rfl
    | erase current next last =>
      obtain ⟨slot', g', hsel', _, _, hblocks, hreach⟩ := hs.erasing _ _ _ hjob
      obtain rfl : g' = g := congrArg Prod.snd (Option.some.inj (hsel'.symm.trans hsel))
      simp only
      split
      · next hnext =>
        have hsmall : next < addressReach := Nat.lt_of_le_of_lt hnext hreach
        have hfollowing : Checked.word (next + 1) = some (next + 1) := by
          rw [addressReach] at hsmall
          exact Checked.word_of_lt (by omega)
        rw [startBlock?_eq (hs.identified _ _ hsel) (Nat.lt_of_le_of_lt hnext hblocks)]
        rcases startBlock slot g' next w' with ⟨_ | _, w''⟩ <;>
          simp [hfollowing, eraseResponse?_eq _ hsmall]
      · rfl
  · simp only [hposition]
    rfl

def startErase? (g : Geometry) (first last position : Nat)
    (start : ω → Option (Except Fault Unit × ω)) (s : Programmer) (w : ω) :
    Option (Response × Programmer × ω) :=
  match s.job.at? with
  | some active => do
    let response ← eraseResponse? .inProgress active
    return (response, s, w)
  | none => do
    let blocks ← g.eraseBlocks?
    if last < first || blocks ≤ last then
      let response ← eraseResponse? .invalid position
      return (response, s, w)
    else
      match ← start w with
      | (.ok _, w) =>
        let following ← Checked.word (first + 1)
        let response ← eraseResponse? .inProgress first
        return (response, { s with job := .erase first following last }, w)
      | (.error _, w) =>
        let response ← eraseResponse? .invalid first
        return (response, s, w)

omit [Spi.Bus ω] in
theorem startErase?_eq {s : Programmer} (hs : s.WellFormed) {g : Geometry}
    {first last position : Nat} (hfirst : first < addressReach) (hposition : position < addressReach)
    {start : ω → Except Fault Unit × ω} {start? : ω → Option (Except Fault Unit × ω)}
    (hstart : ∀ w, first ≤ last → last < g.eraseBlocks → start? w = some (start w)) (w : ω) :
    s.startErase? g first last position start? w =
      some (s.startErase g first last position start w) := by
  rw [startErase?, startErase]
  cases hjob : s.job.at? with
  | some active =>
    have hactive : active < addressReach := by
      have hlt := hs.position_lt
      rwa [Job.position, hjob] at hlt
    simp [eraseResponse?_eq _ hactive]
  | none =>
    simp only [g.eraseBlocks?_eq, Option.bind_eq_bind, Option.bind_some, Bool.or_eq_true,
      decide_eq_true_eq]
    split
    · simp [eraseResponse?_eq _ hposition]
    · next hrange =>
      have hfollowing : Checked.word (first + 1) = some (first + 1) := by
        rw [addressReach] at hfirst
        exact Checked.word_of_lt (by omega)
      rw [hstart w (by omega) (by omega)]
      rcases start w with ⟨_ | _, w'⟩ <;> simp [hfollowing, eraseResponse?_eq _ hfirst]

def erase? (operation : EraseOperation) (first last : Nat) (s : Programmer) (w : ω) :
    Option (Response × Programmer × ω) :=
  match s.selected with
  | none => do
    let response ← eraseResponse? .invalid first
    return (response, s, w)
  | some (slot, g) =>
    match operation with
    | .status => eraseStatus? slot g s w
    | .all => startErase? g 0 0 first (fun w => some (startChipErase slot w)) s w
    | .page => startErase? g first first first (startBlock? slot g first) s w
    | .pageRange => startErase? g first last first (startBlock? slot g first) s w

theorem erase?_eq {s : Programmer} (hs : s.WellFormed) (operation : EraseOperation)
    (first last : PageNumber) (w : ω) :
    s.erase? operation first.val last.val w = some (s.erase operation first.val last.val w) := by
  have hfirst : first.val < addressReach := first.isLt
  rw [erase?, erase]
  cases hsel : s.selected with
  | none => simp [eraseResponse?_eq _ hfirst]
  | some selected =>
    obtain ⟨slot, g⟩ := selected
    have hstart : ∀ {last : Nat} (w : ω), first.val ≤ last → last < g.eraseBlocks →
        startBlock? slot g first.val w = some (startBlock slot g first.val w) :=
      fun w hle hblocks =>
        startBlock?_eq (hs.identified _ _ hsel) (Nat.lt_of_le_of_lt hle hblocks) slot w
    cases operation with
    | status => exact eraseStatus?_eq hs hsel w
    | all => exact startErase?_eq hs (by decide) hfirst (fun _ _ _ => rfl) w
    | page => exact startErase?_eq hs hfirst hfirst hstart w
    | pageRange => exact startErase?_eq hs hfirst hfirst hstart w

def verify? (s : Programmer) (w : ω) : Option (VerifyStatus × ω) :=
  match s.selected, s.written with
  | some (slot, g), some written => do
    let address ← g.pageAddress? written.page
    let length ← Checked.within maxPageLength written.length
    match readIdle slot s.budget.flashPolls address length w with
    | (.ok bs, w) =>
      let expected ← Checked.front written.length s.page
      return (if bs = expected then .agrees else .differs, w)
    | (.error _, w) => return (.invalid, w)
  | _, _ => some (.invalid, w)

/-- The page that was written last is still one of the selected chip. -/
theorem verify?_eq {s : Programmer} (hs : s.WellFormed) (w : ω) :
    s.verify? w = some (s.verify w) := by
  rw [verify?, verify]
  cases hsel : s.selected with
  | none => rfl
  | some selected =>
    obtain ⟨slot, g⟩ := selected
    cases hwritten : s.written with
    | none => rfl
    | some written =>
      obtain ⟨slot', g', hsel', hpage, _, _, hlength⟩ := hs.written _ hwritten
      obtain rfl : g' = g := congrArg Prod.snd (Option.some.inj (hsel'.symm.trans hsel))
      have hroom : written.length ≤ maxPageLength := Nat.le_trans hlength g'.pageLength_le
      have haddress := (hs.identified _ _ hsel).pageAddress?_eq hpage
      have hfront := Checked.front_of_le (hs.page_length.symm ▸ hroom)
      simp only [haddress, Checked.within_of_le hroom, Option.bind_eq_bind, Option.bind_some]
      rcases readIdle slot _ _ _ w with ⟨_ | bs, w'⟩
      · rfl
      · simp [hfront]

def answer? [ResetLine ω] (r : Request) (s : Programmer) (w : ω) :
    Option (Option Response × Programmer × ω) :=
  match r with
  | .listDevice number bus => do
    let (response, w) ← listDevice? number bus w
    return (some response, s, w)
  | .erase operation first last => do
    let (response, s, w) ← s.erase? operation first.val last.val w
    return (some response, s, w)
  | .verify => do
    let (status, w) ← s.verify? w
    return (some (.verify status), s, w)
  -- The others do nothing that could leave its range.
  | r => some (s.answer r w)

theorem answer?_eq [ResetLine ω] {s : Programmer} (hs : s.WellFormed) (r : Request) (w : ω) :
    s.answer? r w = some (s.answer r w) := by
  unfold answer? answer
  cases r with
  | listDevice number bus => simp [listDevice?_eq]
  | erase operation first last => simp [erase?_eq hs]
  | verify => simp [verify?_eq hs]
  | deviceCount | targetDevice | read | write | resetTarget => rfl

end Answering

/-! ## Pages -/

section Pages

variable {ω : Type} [Controller ω]

/-- Receives packets, each of them into what room is left of the buffer. -/
def gather? (ep : UInt8) : (fuel need : Nat) → Link ω → Option (Link.Received × Link ω)
  | 0, _, p => some (⟨[], .ok ()⟩, p)
  | fuel + 1, need, p =>
    if need = 0 then some (⟨[], .ok ()⟩, p)
    else
      match p.readPacket ep need with
      | (.error e, p) => some (⟨[], .error e⟩, p)
      | (.ok bs, p) =>
        if bs.isEmpty then some (⟨[], .error (.usbTimeout ep)⟩, p)
        else do
          let length ← Checked.within need bs.length
          let (rest, p) ← gather? ep fuel (need - length) p
          return (⟨bs ++ rest.bytes, rest.outcome⟩, p)

theorem gather?_eq (ep : UInt8) (fuel need : Nat) (p : Link ω) :
    gather? ep fuel need p = some (p.gather ep fuel need) := by
  induction fuel generalizing need p with
  | zero => rfl
  | succ fuel ih =>
    rw [gather?, Link.gather]
    split
    · rfl
    · cases hr : p.readPacket ep need with
      | mk outcome p' =>
        cases outcome with
        | error e => rfl
        | ok bs =>
          have hroom := readPacket_length_le hr
          simp only
          split
          · rfl
          · simp [Checked.within_of_le hroom, ih]

def fill? (ep : UInt8) (buffer : List UInt8) (p : Link ω) :
    Option (Except Fault Unit × List UInt8 × Link ω) := do
  let (received, p) ← gather? ep buffer.length buffer.length p
  return (received.outcome, received.bytes ++ buffer.drop received.bytes.length, p)

theorem fill?_eq (ep : UInt8) (buffer : List UInt8) (p : Link ω) :
    fill? ep buffer p = some (p.fill ep buffer) := by
  rw [fill?, gather?_eq]
  rfl

/-- A buffer that was filled is as long as before. -/
theorem length_fill (ep : UInt8) (buffer : List UInt8) (p : Link ω) :
    (p.fill ep buffer).2.1.length = buffer.length := by
  have hgather := gather_length ep (Nat.le_refl buffer.length) p
  simp only [Link.fill, List.length_append, List.length_drop]
  omega

variable [Spi.Bus ω]

def servePage? (page : Nat) (s : Station ω) : Option (Station ω) :=
  match s.1.selected with
  | none => some (refuse .toHost s)
  | some (slot, g) => do
    let pages ← g.pageCount?
    if page < pages then
      let address ← g.pageAddress? page
      let length ← Checked.within maxPageLength g.pageLength
      match readIdle slot s.1.budget.flashPolls address length s.2.hw with
      | (.error _, hw) => return refuse .toHost (s.1, { s.2 with hw })
      | (.ok bs, hw) => return (s.1, ({ s.2 with hw }.write flashEndpoint bs).2)
    else return refuse .toHost s

theorem servePage?_eq {s : Station ω} (hs : s.1.WellFormed) (page : Nat) :
    servePage? page s = some (servePage page s) := by
  rw [servePage?, servePage]
  cases hsel : s.1.selected with
  | none => rfl
  | some selected =>
    obtain ⟨slot, g⟩ := selected
    simp only [g.pageCount?_eq, Option.bind_eq_bind, Option.bind_some]
    split
    · next hpage =>
      simp only [(hs.identified _ _ hsel).pageAddress?_eq hpage,
        Checked.within_of_le (show g.pageLength ≤ maxPageLength from g.pageLength_le),
        Option.bind_some]
      rcases readIdle slot _ _ _ s.2.hw with ⟨_ | bs, hw⟩ <;> rfl
    · rfl

def program? (slot : Slot) (g : Geometry) (page count : Nat) (s : Station ω) :
    Option (Station ω) := do
  let address ← g.pageAddress? page
  let data ← Checked.front count s.1.page
  match startPageProgram slot address data s.2.hw with
  | (.ok _, hw) =>
    return ({ s.1 with job := .write page, written := some ⟨page, count⟩ }, { s.2 with hw })
  | (.error _, hw) => return ({ s.1 with written := none }, { s.2 with hw })

omit [Controller ω] in
theorem program?_eq {g : Geometry} (h : Identified g) {page count : Nat}
    (hpage : page < g.pageCount) {s : Station ω} (hcount : count ≤ s.1.page.length) (slot : Slot) :
    program? slot g page count s = some (program slot g page count s) := by
  rw [program?, program, h.pageAddress?_eq hpage, Checked.front_of_le hcount]
  simp only [Option.bind_eq_bind, Option.bind_some]
  rcases startPageProgram slot _ _ s.2.hw with ⟨_ | _, hw⟩ <;> rfl

def acceptPage? (page count : Nat) (s : Station ω) : Option (Station ω) :=
  match s.1.selected, s.1.job.at? with
  | some (slot, g), none => do
    let pages ← g.pageCount?
    if count = 0 || g.pageLength < count || pages ≤ page then return refuse .toDevice s
    else
      let front ← Checked.front count s.1.page
      let (outcome, bytes, link) ← fill? flashEndpoint front s.2
      let s : Station ω := ({ s.1 with page := bytes ++ s.1.page.drop count }, link)
      match outcome with
      | .ok _ => program? slot g page count s
      | .error _ => return refuse .toDevice s
  | _, _ => some (refuse .toDevice s)

/-- The bytes of a write go into the front of the page buffer, which keeps its length. -/
theorem acceptPage?_eq {s : Station ω} (hs : s.1.WellFormed) (page count : Nat) :
    acceptPage? page count s = some (acceptPage page count s) := by
  rw [acceptPage?, acceptPage]
  cases hsel : s.1.selected with
  | none => rfl
  | some selected =>
    obtain ⟨slot, g⟩ := selected
    cases s.1.job.at? with
    | some active => rfl
    | none =>
      simp only [g.pageCount?_eq, Option.bind_eq_bind, Option.bind_some, Bool.or_eq_true,
        decide_eq_true_eq]
      split
      · rfl
      · next hrange =>
        have hcount : count ≤ g.pageLength := by omega
        have hroom : count ≤ s.1.page.length := by
          rw [hs.page_length]
          exact Nat.le_trans hcount g.pageLength_le
        have hlength := length_fill flashEndpoint (s.1.page.take count) s.2
        rw [length_take_page hs.page_length g hcount] at hlength
        simp only [Checked.front_of_le hroom, fill?_eq, Option.bind_some]
        generalize s.2.fill flashEndpoint (s.1.page.take count) = filled at hlength ⊢
        obtain ⟨_ | _, bytes, link⟩ := filled
        · rfl
        · refine program?_eq (hs.identified _ _ hsel) (by omega) ?_ slot
          rw [List.length_append]
          exact Nat.le_trans (Nat.le_of_eq hlength.symm) (Nat.le_add_right _ _)

end Pages

/-! ## Serving -/

section Serving

variable {ω : Type} [Spi.Bus ω] [ResetLine ω] [Controller ω]

def respond? (r : Request) (s : Station ω) : Option (Station ω) := do
  match ← s.1.answer? r s.2.hw with
  | (some response, programmer, hw) =>
    return (programmer, ({ s.2 with hw }.write flashEndpoint response.encode).2)
  | (none, programmer, hw) => return (programmer, { s.2 with hw })

theorem respond?_eq {s : Station ω} (hs : s.1.WellFormed) (r : Request) :
    respond? r s = some (respond r s) := by
  rw [respond?, respond, answer?_eq hs]
  rcases s.1.answer r s.2.hw with ⟨_ | response, programmer, hw⟩ <;> rfl

def serve? (r : Request) (s : Station ω) : Option (Station ω) :=
  match r with
  | .read page => servePage? page.val s
  | .write page count => acceptPage? page.val count.val s
  | r => respond? r s

/-- On every programmer that some requests have led to, whatever the hardware answered and answers
now, no operation of serving a request leaves its range: what comes of the checked functions is
what comes of serving. -/
theorem serving_in_range {s : Station ω} (h : Reachable s.1) (r : Request) :
    serve? r s = some (serve r s) := by
  have hs := h.wellFormed
  cases r with
  | read page => exact servePage?_eq hs page.val
  | write page count => exact acceptPage?_eq hs page.val count.val
  | deviceCount | listDevice | targetDevice | erase | verify | resetTarget => exact respond?_eq hs _

end Serving

/-- A programmer that targets a part of 128 erase blocks. -/
def eightMegabytes : Station Bench.Rig :=
  Bench.Rig.targeting { id := [0x20, 0x20, 0x17], size := 0x800000 }

/-- The last two blocks are erased, and the second of them comes next. -/
theorem serving_in_range_last_blocks :
    Reachable eightMegabytes.1 ∧
      serve? (.erase .pageRange (.ofNat 126) (.ofNat 127)) eightMegabytes =
        some (serve (.erase .pageRange (.ofNat 126) (.ofNat 127)) eightMegabytes) ∧
      (serve (.erase .pageRange (.ofNat 126) (.ofNat 127)) eightMegabytes).1.job =
        .erase 126 127 127 := by
  have hreachable : Reachable eightMegabytes.1 := .served (.targetDevice 0 0) _ (.start {})
  exact ⟨hreachable, serving_in_range hreachable _, by decide +kernel⟩

-- No request leads to what follows: a page past 32 bits, a block past 32 bits, an empty buffer.
example : serve? .verify
    ({ eightMegabytes.1 with written := some ⟨0x1000000, 1⟩ }, eightMegabytes.2) = none := by
  rfl

example : serve? (.erase .status (.ofNat 0) (.ofNat 0))
    ({ eightMegabytes.1 with job := .erase 0 0x10000 0x10000 }, eightMegabytes.2) = none := by
  rfl

example : serve? .verify
    ({ eightMegabytes.1 with written := some ⟨0, 1⟩, page := [] }, eightMegabytes.2) = none := by
  rfl

end Programmer

end FlashProgrammer
