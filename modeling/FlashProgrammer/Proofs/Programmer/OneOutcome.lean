import FlashProgrammer.Proofs.Programmer.AnsweredFrames
import FlashProgrammer.Proofs.Programmer.Doing
import FlashProgrammer.Proofs.Programmer.RoundTrip
import FlashProgrammer.Proofs.Programmer.ShownFailures
import FlashProgrammer.Proofs.Trace.Glimpses

/-!
# One outcome for each request

A frame comes to one of four ends.  A frame that does not decode halts the endpoint.  A request
with a response is answered with one packet.  A read sends the page, or halts the endpoint.
A write sends nothing, and programs its page or halts the endpoint in the other direction.

`one_outcome` says so in what the host sees.  The functions are taken one by one: each has a
lemma that says what it shows, given that every packet for the host is collected in time.
-/

namespace FlashProgrammer.Programmer

open Flash Protocol Usb Trace

/-! ## The frame -/

section Framing

variable {ω : Type} [Controller ω]

/-- The frame that is served next, with the station once it was read. -/
def frame? (s : Station ω) : Option (List UInt8 × Station ω) :=
  match s.2.rxPending flashEndpoint with
  | (false, _) => none
  | (true, link) =>
    match link.readPacket flashEndpoint maxPacket with
    | (.error _, _) => none
    | (.ok frame, link) => some (frame, (s.1, link))

/-- Reading a frame takes one packet and nothing else. -/
structure Reads (s s' : Station (Traced ω)) : Prop where
  programmer_eq : s'.1 = s.1
  device_eq : s'.2.device = s.2.device
  used : Used s.2.hw s'.2.hw
  sees : Sees shows [.rxDone .flash false] s.2.hw s'.2.hw

omit [Controller ω] in
theorem of_bulkEndpoint {p : Link ω} {dir : Direction} {e : Endpoint}
    (h : p.bulkEndpoint flashEndpoint dir = .ok e) :
    p.device.isConfigured = true ∧ e = .flash := by
  have hflash : Endpoint.ofByte? flashEndpoint = some .flash := by decide
  rw [Link.bulkEndpoint] at h
  split at h
  · next hconfigured =>
    simp only [hflash] at h
    split at h
    · cases h
    · cases h
      exact ⟨hconfigured, rfl⟩
  · cases h

theorem sees_readPacket {p q : Link (Traced ω)} {room : Nat} {frame : List UInt8}
    (h : p.readPacket flashEndpoint room = (.ok frame, q)) :
    p.device.isConfigured = true ∧ Sees shows [.rxDone .flash false] p.hw q.hw := by
  rw [Link.readPacket] at h
  split at h
  · cases h
  · next e hbulk =>
    obtain ⟨hconfigured, rfl⟩ := of_bulkEndpoint hbulk
    have hawait : Sees shows [] p.hw
        (Link.awaitPacket .flash p.device.budget.usbSpins p).2.hw :=
      unseen_awaitPacket rfl p.device.budget.usbSpins p
    generalize Link.awaitPacket .flash p.device.budget.usbSpins p = awaited at hawait h
    obtain ⟨_ | _, r⟩ := awaited
    · cases h
    · have htaken : Sees shows [.rxDone .flash false] r.hw (r.takePacket .flash room).2.hw :=
        sees_takePacket rfl (fun _ => rfl) room r
      simp only [Prod.mk.injEq] at h
      rw [← h.2]
      exact ⟨hconfigured, htaken.after hawait⟩

theorem reads_frame {s s' : Station (Traced ω)} {frame : List UInt8}
    (h : frame? s = some (frame, s')) : Reads s s' ∧ s.2.device.isConfigured = true := by
  have hpending := talks_rxPending flashEndpoint s.2
  have hunseen : Sees shows [] s.2.hw (s.2.rxPending flashEndpoint).2.hw :=
    unseen_rxPending (fun _ => rfl) flashEndpoint s.2
  rw [frame?] at h
  generalize s.2.rxPending flashEndpoint = pending at hpending hunseen h
  obtain ⟨_ | _, p⟩ := pending
  · cases h
  · have hread := talks_readPacket flashEndpoint maxPacket p
    simp only at h
    cases hp : p.readPacket flashEndpoint maxPacket with
    | mk outcome q =>
      rw [hp] at hread h
      cases outcome with
      | error e => cases h
      | ok bs =>
        cases h
        obtain ⟨hconfigured, hsees⟩ := sees_readPacket hp
        have htalks := hpending.trans hread
        rw [hpending.device_eq] at hconfigured
        exact ⟨⟨rfl, htalks.device_eq, htalks.used, hsees.after hunseen⟩, hconfigured⟩

/-- Reading a frame does not depend on the trace. -/
theorem frame?_untraced [Spi.Bus ω] [ResetLine ω] (s : Station (Traced ω)) :
    frame? (untracedStation s) =
      (frame? s).map fun read => (read.1, untracedStation read.2) := by
  have hpending := withoutTrace.rxPending_link flashEndpoint s.2
  have hlink : (untracedStation s).2 = withoutTrace.link s.2 := rfl
  rw [frame?, frame?, hlink, hpending]
  rcases s.2.rxPending flashEndpoint with ⟨_ | _, p⟩
  · rfl
  · have hread := withoutTrace.readPacket_link flashEndpoint maxPacket p
    simp only [hread]
    rcases p.readPacket flashEndpoint maxPacket with ⟨_ | bs, q⟩ <;> rfl

theorem service_of_frame [Spi.Bus ω] [ResetLine ω] {s s' : Station ω} {frame : List UInt8}
    (h : frame? s = some (frame, s')) :
    service s =
      match Request.decode frame with
      | .ok r => serve r s'
      | .error _ => refuse .toHost s' := by
  rw [frame?] at h
  rw [service]
  generalize s.2.rxPending flashEndpoint = pending at h ⊢
  obtain ⟨_ | _, p⟩ := pending
  · cases h
  · simp only at h ⊢
    generalize p.readPacket flashEndpoint maxPacket = read at h ⊢
    obtain ⟨_ | bs, q⟩ := read
    · cases h
    · cases h
      rfl

end Framing

/-! ## Sending -/

section Sending

variable {ω : Type} [Spi.Bus ω] [ResetLine ω] [Controller ω]

/-- Whatever the firmware does, the host collects a packet of the flash endpoint before the spins
run out. -/
def Prompt (p : Link ω) : Prop :=
  ∀ w, Does p.hw w →
    (Link.awaitCollected .flash p.device.budget.usbSpins ⟨p.device, w⟩).1 = true

/-- What is written on the flash endpoint is sent. -/
structure Sends (p : Link ω) : Prop where
  configured : p.device.isConfigured = true
  opened : (p.device.endpoints.get .flash .toHost).stalled = false
  prompt : Prompt p

theorem Sends.later {p q : Link ω} (h : Sends p) (hdevice : q.device = p.device)
    (hdoes : Does p.hw q.hw) : Sends q where
  configured := by rw [hdevice, h.configured]
  opened := by rw [hdevice, h.opened]
  prompt := by
    intro w hw
    rw [hdevice]
    exact h.prompt w (hdoes.trans hw)

/-- What the firmware does on traced hardware it does on the hardware itself. -/
theorem does_untraced {w w' : Traced ω} (h : Does w w') : Does w.hw w'.hw := by
  induction h with
  | refl => exact .refl
  | use _ a ih => exact .use ih a
  | drive _ level ih => exact .drive ih level
  | @execute w' _ slot i ih =>
    have hstep := Does.execute ih slot i
    rw [execute_view isView_hw] at hstep
    exact hstep

theorem Prompt.traced {p : Link (Traced ω)} (h : Prompt (untraced p)) : Prompt p := by
  intro w hw
  have huntraced := withoutTrace.awaitCollected_link .flash p.device.budget.usbSpins
    ⟨p.device, w⟩
  exact (congrArg Prod.fst huntraced).symm.trans (h w.hw (does_untraced hw))

theorem sees_sendPackets {p : Link (Traced ω)} (h : Sends p) (ep : UInt8)
    (packets : List (List UInt8)) :
    Sees shows (packets.flatMap fun packet => fifoWrites .flash packet ++ [.txReady .flash false])
      p.hw (Link.sendPackets ep .flash packets p).2.hw := by
  induction packets generalizing p with
  | nil => exact sees_refl p.hw
  | cons packet rest ih =>
    have hcollected := h.prompt p.hw .refl
    have hawait : Sees shows [] p.hw
        (Link.awaitCollected .flash p.device.budget.usbSpins p).2.hw :=
      unseen_awaitCollected rfl p.device.budget.usbSpins p
    have htalks := talks_awaitCollected .flash p.device.budget.usbSpins p
    rw [List.flatMap_cons, Link.sendPackets]
    generalize Link.awaitCollected .flash p.device.budget.usbSpins p = awaited
      at hcollected hawait htalks ⊢
    obtain ⟨collected, q⟩ := awaited
    obtain rfl : collected = true := hcollected
    have hwrites : ∀ width value, shows (.fifoWrite .flash width value) = true := fun _ _ => rfl
    have hwritten := (sees_writeFifo hwrites packet q.hw).after hawait
    have hcommitted : Sees shows [.txReady .flash false] (writeFifo .flash packet q.hw)
        (tell (.txReady .flash false) (writeFifo .flash packet q.hw)) :=
      sees_perform rfl (writeFifo .flash packet q.hw)
    have hused : UsedFor (fun a => shows a = true) q.hw (writeFifo .flash packet q.hw) :=
      usedFor_writeFifo hwrites packet q.hw
    have hdoes : Does p.hw (tell (.txReady .flash false) (writeFifo .flash packet q.hw)) :=
      .use (.of_used (htalks.used.trans hused.used)) _
    have hnext : Sends (Link.tell (.txReady .flash false)
        { q with hw := writeFifo .flash packet q.hw }) := h.later htalks.device_eq hdoes
    exact (hwritten.trans hcommitted).trans (ih hnext)

/-- Bytes that are written are sent. -/
theorem sees_write {p : Link (Traced ω)} (h : Sends p) (data : List UInt8) :
    Sees shows (sendActions data) p.hw (p.write flashEndpoint data).2.hw := by
  have hflash : Endpoint.ofByte? flashEndpoint = some .flash := by decide
  have hbulk : p.bulkEndpoint flashEndpoint .toHost = .ok .flash := by
    rw [Link.bulkEndpoint, h.configured, hflash]
    simp only [h.opened]
    rfl
  rw [Link.write, hbulk]
  exact sees_sendPackets h flashEndpoint (packets data)

end Sending

/-! ## The functions of the firmware -/

section Serving

variable {ω : Type} [Spi.Bus ω] [Controller ω]

omit [Spi.Bus ω] in
theorem sees_refuse (dir : Direction) (s : Station (Traced ω)) :
    Sees shows [.stall .flash dir] s.2.hw (refuse dir s).2.hw :=
  (drives_refuse dir s).sees shows

omit [Spi.Bus ω] in
theorem issues_refuse (dir : Direction) (s : Station (Traced ω)) :
    Issues [] s.2.hw (refuse dir s).2.hw :=
  issues_of_used (used_stallEndpoint flashEndpoint dir s.2)

/-- Of a request with a response, the response is seen. -/
theorem sees_respond [ResetLine ω] {r : Request} {s : Station (Traced ω)} {response : Response}
    (h : Sends s.2) (hreply : replyTo r s = some response) :
    Sees shows (sendActions response.encode) s.2.hw (serve r s).2.hw := by
  have hanswer := (drives_answer r s.1 s.2.hw).sees shows
  have hlater : Sends (Link.mk s.2.device (s.1.answer r s.2.hw).2.2) :=
    h.later rfl (does_answer r s.1 s.2.hw)
  rw [serve_of_replyTo hreply]
  exact (sees_write hlater response.encode).after hanswer

omit [Spi.Bus ω] [Controller ω] in
/-- A response has the opcode of its request. -/
theorem Says.opcode_eq {s : Programmer} {r : Request} {response : Response}
    (h : Says s r response) : response.opcode = r.opcode := by
  cases h <;> rfl

/-- A read halts the endpoint, or sends the page that it read from the chip. -/
theorem servePage_outcome [ResetLine ω] (page : Nat) {s : Station (Traced ω)} (h : Sends s.2) :
    Sees shows [.stall .flash .toHost] s.2.hw (servePage page s).2.hw ∨
    ∃ slot g bytes ts, s.1.selected = some (slot, g) ∧ page < g.pageCount ∧
      ReadsIdle slot s.1.budget.flashPolls (g.pageAddress page) g.pageLength (.ok bytes) ts ∧
      Issues ts s.2.hw (servePage page s).2.hw ∧
      Sees shows (sendActions bytes) s.2.hw (servePage page s).2.hw := by
  rw [servePage]
  cases hsel : s.1.selected with
  | none => exact .inl (sees_refuse .toHost s)
  | some selected =>
    obtain ⟨slot, g⟩ := selected
    simp only
    split
    · next hpage =>
      have hdoes := does_readIdle slot s.1.budget.flashPolls (g.pageAddress page) g.pageLength
        s.2.hw
      have hdrives := (drives_readIdle slot s.1.budget.flashPolls (g.pageAddress page)
        g.pageLength s.2.hw).sees shows
      obtain ⟨ts, hreads, hissues⟩ := readIdle_readsIdle slot s.1.budget.flashPolls
        (g.pageAddress page) g.pageLength s.2.hw
      generalize readIdle slot s.1.budget.flashPolls (g.pageAddress page) g.pageLength s.2.hw =
        read at hdoes hdrives hreads hissues ⊢
      obtain ⟨_ | bytes, w⟩ := read
      · exact .inl ((sees_refuse .toHost (s.1, ⟨s.2.device, w⟩)).after hdrives)
      · have hlater : Sends (Link.mk s.2.device w) := h.later rfl hdoes
        exact .inr ⟨slot, g, bytes, ts, rfl, hpage, hreads,
          hissues.quiet (issues_of_used (talks_write flashEndpoint bytes ⟨s.2.device, w⟩).used),
          (sees_write hlater bytes).after hdrives⟩
    · exact .inl (sees_refuse .toHost s)

omit [Controller ω] in
/-- Programming a page is one modification, whatever comes of it. -/
theorem program_modifies (slot : Slot) (g : Geometry) (page count : Nat)
    (s : Station (Traced ω)) :
    ∃ result ts, Modifies slot (.pageProgram (g.pageAddress page) (s.1.page.take count)) result ts ∧
      Issues ts s.2.hw (program slot g page count s).2.hw := by
  obtain ⟨ts, hmodifies, hissues⟩ :=
    modify_modifies slot (.pageProgram (g.pageAddress page) (s.1.page.take count)) s.2.hw
  rw [program, startPageProgram]
  generalize Flash.modify slot _ s.2.hw = started at hmodifies hissues ⊢
  obtain ⟨_ | _, w⟩ := started <;> exact ⟨_, ts, hmodifies, hissues⟩

/-- A write takes packets and halts the endpoint, or takes packets and tries to program its page. -/
theorem acceptPage_outcome (page count : Nat) {s : Station (Traced ω)}
    (hpage : s.1.page.length = maxPageLength) :
    ∃ as, (∀ a ∈ as, releases a = true) ∧
      ((Sees shows (as ++ [.stall .flash .toDevice]) s.2.hw (acceptPage page count s).2.hw ∧
          Issues [] s.2.hw (acceptPage page count s).2.hw) ∨
        ∃ slot g data result ts, s.1.selected = some (slot, g) ∧ page < g.pageCount ∧
          data.length = count ∧ Modifies slot (.pageProgram (g.pageAddress page) data) result ts ∧
          Issues ts s.2.hw (acceptPage page count s).2.hw ∧
          Sees shows as s.2.hw (acceptPage page count s).2.hw) := by
  cases htakes : s.1.takesData page count with
  | false =>
    rw [acceptPage_of_refused htakes]
    exact ⟨[], by simp, .inl ⟨sees_refuse .toDevice s, issues_refuse .toDevice s⟩⟩
  | true =>
    obtain ⟨slot, g, hsel, _, _, _, hcovered⟩ := takesData_iff.mp htakes
    have hlength := gather_length flashEndpoint (Nat.le_refl count) s.2
    have hquiet := issues_of_used (talks_gather flashEndpoint count count s.2).used
    obtain ⟨as, hdrives, hreceives⟩ := receives_gather flashEndpoint count count s.2
    have hsees := hdrives.sees shows
    have hreleases : ∀ a ∈ as.filter shows, releases a = true := by
      intro a ha
      obtain ⟨hmem, hshows⟩ := List.mem_filter.mp ha
      exact releases_of_receives (hreceives a hmem) hshows
    refine ⟨as.filter shows, hreleases, ?_⟩
    rw [acceptPage_of_taken hpage hsel htakes]
    generalize s.2.gather flashEndpoint count count = gathered at hlength hquiet hsees ⊢
    obtain ⟨⟨bytes, outcome⟩, q⟩ := gathered
    rcases hlength with ⟨rfl, hbytes⟩ | ⟨⟨e, rfl⟩, _⟩
    · have hdata : (bytes ++ s.1.page.drop bytes.length).take count = bytes := by
        rw [← hbytes, List.take_left]
      obtain ⟨result, ts, hmodifies, hissues⟩ := program_modifies slot g page count
        ({ s.1 with page := bytes ++ s.1.page.drop bytes.length }, q)
      have hunseen := (drives_program slot g page count
        ({ s.1 with page := bytes ++ s.1.page.drop bytes.length }, q)).1.sees shows
      rw [hdata] at hmodifies
      refine .inr ⟨slot, g, bytes, result, ts, hsel, hcovered, hbytes, hmodifies,
        hquiet.trans hissues, ?_⟩
      have htaken := hsees.trans hunseen
      rwa [List.filter_nil, List.append_nil] at htaken
    · have hrefused := sees_refuse .toDevice
        ({ s.1 with page := bytes ++ s.1.page.drop bytes.length }, q)
      have hissues := issues_refuse .toDevice
        ({ s.1 with page := bytes ++ s.1.page.drop bytes.length }, q)
      exact .inl ⟨hsees.trans hrefused, hquiet.quiet hissues⟩

end Serving

/-! ## The outcomes -/

section Outcomes

variable {ω : Type} [Spi.Bus ω] [ResetLine ω] [Controller ω]

/-- What serving the flash endpoint asks of the hardware. -/
def serviceEvents (s : Station ω) : List Event :=
  (service (s.1, traced s.2)).2.hw.events

/-- What the host sees of it. -/
def serviceGlimpse (s : Station ω) : Glimpse := glimpse (controllerActions (serviceEvents s))

/-- A frame was read, and it is about to be served. -/
structure Begun (s : Station ω) (frame : List UInt8) (t : Station (Traced ω)) : Prop where
  service_eq : service (s.1, traced s.2) =
    match Request.decode frame with
    | .ok r => serve r t
    | .error _ => refuse .toHost t
  reads : Reads (s.1, traced s.2) t
  reachable : Reachable t.1
  sends : Sends t.2

theorem begun_of_frame {s s' : Station ω} {frame : List UInt8} (hs : Reachable s.1)
    (hframe : frame? s = some (frame, s'))
    (hopen : (s.2.device.endpoints.get .flash .toHost).stalled = false) (hprompt : Prompt s.2) :
    ∃ t, Begun s frame t := by
  have hread := frame?_untraced (s.1, traced s.2)
  rw [show untracedStation (s.1, traced s.2) = s from rfl, hframe] at hread
  obtain ⟨⟨_, t⟩, ht, hsame⟩ := Option.map_eq_some_iff.mp hread.symm
  obtain ⟨rfl, rfl⟩ := Prod.mk.inj hsame
  obtain ⟨hreads, hconfigured⟩ := reads_frame ht
  have hsends : Sends (traced s.2) := ⟨hconfigured, hopen, .traced hprompt⟩
  exact ⟨t, service_of_frame ht, hreads, hreads.programmer_eq ▸ hs,
    hsends.later hreads.device_eq (.of_used hreads.used)⟩

namespace Begun

variable {s : Station ω} {frame : List UInt8} {t : Station (Traced ω)}

/-- The packet with the frame is seen, and what comes after it. -/
theorem seen (h : Begun s frame t) {as : List Usb.Action}
    (has : Sees shows as t.2.hw (service (s.1, traced s.2)).2.hw) :
    serviceGlimpse s = (glimpse as).after 1 := by
  have hboth := (h.reads.sees.trans has).filter_eq
  have hfirst : ∀ a ∈ [Usb.Action.rxDone .flash false], releases a = true := by simp [releases]
  rw [serviceGlimpse, serviceEvents, ← glimpse_filter, hboth, glimpse_taking hfirst,
    List.length_singleton]

/-- Reading the frame issues no transaction. -/
theorem issued (h : Begun s frame t) {ts : List Transaction}
    (hts : Issues ts t.2.hw (service (s.1, traced s.2)).2.hw) :
    transactions (serviceEvents s) = ts :=
  ((issues_of_used h.reads.used).trans hts).transactions_eq

theorem refused (h : Begun s frame t) {e : FrameError} (he : Request.decode frame = .error e) :
    serviceGlimpse s = ⟨[], [(.flash, .toHost)], 1⟩ ∧ busActions (serviceEvents s) = [] ∧
      (service (s.1, traced s.2)).1 = s.1 := by
  have hserviced := h.service_eq
  rw [he] at hserviced
  simp only at hserviced
  have hsees := sees_refuse .toHost t
  rw [← hserviced] at hsees
  refine ⟨h.seen hsees, ?_, ?_⟩
  · rw [serviceEvents, hserviced]
    exact busActions_of_used (h.reads.used.trans (used_stallEndpoint flashEndpoint .toHost t.2))
  · rw [hserviced]
    exact h.reads.programmer_eq

theorem answered (h : Begun s frame t) {r : Request} (hr : Request.decode frame = .ok r)
    (hnoread : r.opcode ≠ .read) (hnowrite : r.opcode ≠ .write) :
    ∃ response, serviceGlimpse s = ⟨[response.encode], [], 1⟩ ∧ response.opcode = r.opcode ∧
      Says s.1 r response := by
  have hserviced := h.service_eq
  rw [hr] at hserviced
  simp only at hserviced
  obtain ⟨response, hreply⟩ : ∃ response, replyTo r t = some response := by
    refine Option.ne_none_iff_exists'.mp fun hnone => ?_
    exact ((replyTo_eq_none_iff r t).mp hnone).elim hnoread hnowrite
  have hserves := h.reachable.serves r
  rw [hreply] at hserves
  have hsays := hserves.told h.reachable.wellFormed
  have hone : packets response.encode = [response.encode] :=
    packets_of_fits (List.cons_ne_nil _ _) (Nat.le_trans response.length_encode_le (by decide))
  have hsees := sees_respond h.sends hreply
  rw [← hserviced] at hsees
  refine ⟨response, ?_, hsays.opcode_eq, h.reads.programmer_eq ▸ hsays⟩
  rw [h.seen hsees, glimpse_sendActions, hone]
  rfl

theorem read (h : Begun s frame t) {page : PageNumber}
    (hpage : Request.decode frame = .ok (.read page)) :
    serviceGlimpse s = ⟨[], [(.flash, .toHost)], 1⟩ ∨
    ∃ slot g bytes, s.1.selected = some (slot, g) ∧
      ReadsIdle slot s.1.budget.flashPolls (g.pageAddress page.val) g.pageLength (.ok bytes)
        (transactions (serviceEvents s)) ∧
      serviceGlimpse s = ⟨packets bytes, [], 1⟩ := by
  have hserviced := h.service_eq
  rw [hpage] at hserviced
  simp only [serve] at hserviced
  have hprogrammer : t.1 = s.1 := h.reads.programmer_eq
  have houtcome := servePage_outcome page.val h.sends
  rw [← hserviced, hprogrammer] at houtcome
  rcases houtcome with hhalted | ⟨slot, g, bytes, ts, hsel, _, hreads, hissues, hsent⟩
  · exact .inl (h.seen hhalted)
  · refine .inr ⟨slot, g, bytes, hsel, ?_, ?_⟩
    · rw [h.issued hissues]
      exact hreads
    · rw [h.seen hsent, glimpse_sendActions]
      rfl

theorem written (h : Begun s frame t) {page count : PageNumber}
    (hwrite : Request.decode frame = .ok (.write page count)) :
    ∃ taken,
      serviceGlimpse s = ⟨[], [(.flash, .toDevice)], taken⟩ ∧
        transactions (serviceEvents s) = [] ∨
      serviceGlimpse s = ⟨[], [], taken⟩ ∧ ∃ slot g data result,
        s.1.selected = some (slot, g) ∧ data.length = count.val ∧
        Modifies slot (.pageProgram (g.pageAddress page.val) data) result
          (transactions (serviceEvents s)) := by
  have hserviced := h.service_eq
  rw [hwrite] at hserviced
  simp only [serve] at hserviced
  have hprogrammer : t.1 = s.1 := h.reads.programmer_eq
  obtain ⟨as, has, houtcome⟩ :=
    acceptPage_outcome page.val count.val h.reachable.wellFormed.page_length
  rw [← hserviced, hprogrammer] at houtcome
  rcases houtcome with ⟨hhalted, hissues⟩ | ⟨slot, g, data, result, ts, hsel, _, hdata, hmodifies,
      hissues, htaken⟩
  · refine ⟨1 + as.length, .inl ⟨?_, h.issued hissues⟩⟩
    rw [h.seen hhalted, glimpse_taking has]
    rfl
  · refine ⟨1 + as.length, .inr ⟨?_, slot, g, data, result, hsel, hdata, ?_⟩⟩
    · have hnothing := glimpse_taking has []
      rw [List.append_nil] at hnothing
      rw [h.seen htaken, hnothing]
      rfl
    · rw [h.issued hissues]
      exact hmodifies

end Begun

/-- Every frame that is served has one outcome.

A reachable programmer takes a frame from the flash endpoint.  The endpoint is not halted for data
to the host, and the host collects every packet in time.

A frame that does not decode halts the endpoint for data to the host, moves nothing on the SPI bus
and changes nothing.  A request with a response is answered with one packet, which begins with
its opcode and is read back as the response that was meant.  A read halts the endpoint, or sends
the page that it read from the chip in as few packets as carry it.  These three take one
packet.  A write sends nothing, and halts the endpoint for data from the host or tries to
program its page. -/
theorem one_outcome {s s' : Station ω} {frame : List UInt8} (hs : Reachable s.1)
    (hframe : frame? s = some (frame, s'))
    (hopen : (s.2.device.endpoints.get .flash .toHost).stalled = false) (hprompt : Prompt s.2) :
    let seen := serviceGlimpse s
    let issued := transactions (serviceEvents s)
    (∀ e, Request.decode frame = .error e →
      seen = ⟨[], [(.flash, .toHost)], 1⟩ ∧ busActions (serviceEvents s) = [] ∧
        (service s).1 = s.1) ∧
    (∀ r, Request.decode frame = .ok r → r.opcode ≠ .read → r.opcode ≠ .write →
      ∃ packet response, seen = ⟨[packet], [], 1⟩ ∧ packet.head? = some r.opcode.toByte ∧
        Response.decode packet = .ok response ∧ response.opcode = r.opcode ∧
        Says s.1 r response) ∧
    (∀ page, Request.decode frame = .ok (.read page) →
      seen = ⟨[], [(.flash, .toHost)], 1⟩ ∨
      ∃ slot g bytes sent, s.1.selected = some (slot, g) ∧
        ReadsIdle slot s.1.budget.flashPolls (g.pageAddress page.val) g.pageLength (.ok bytes)
          issued ∧
        bytes.length = g.pageLength ∧ seen = ⟨sent, [], 1⟩ ∧
        sent.length = (g.pageLength + 63) / 64 ∧ sent.flatten = bytes) ∧
    (∀ page count, Request.decode frame = .ok (.write page count) → ∃ taken,
      seen = ⟨[], [(.flash, .toDevice)], taken⟩ ∧ issued = [] ∨
      seen = ⟨[], [], taken⟩ ∧ ∃ slot g data result, s.1.selected = some (slot, g) ∧
        data.length = count.val ∧
        Modifies slot (.pageProgram (g.pageAddress page.val) data) result issued) := by
  intro seen issued
  obtain ⟨t, ht⟩ := begun_of_frame hs hframe hopen hprompt
  refine ⟨fun e he => ?_, fun r hr hnoread hnowrite => ?_, fun page hpage => ?_,
    fun page count hwrite => ht.written hwrite⟩
  · obtain ⟨hseen, hquiet, hsame⟩ := ht.refused he
    have huntraced := withoutTrace.service_station (s.1, traced s.2)
    exact ⟨hseen, hquiet, (congrArg Prod.fst huntraced).trans hsame⟩
  · obtain ⟨response, hseen, hopcode, hsays⟩ := ht.answered hr hnoread hnowrite
    have hdecode := response.decode_encode []
    rw [List.append_nil] at hdecode
    exact ⟨response.encode, response, hseen, hopcode ▸ rfl, hdecode, hopcode, hsays⟩
  · refine (ht.read hpage).imp_right fun ⟨slot, g, bytes, hsel, hreads, hseen⟩ => ?_
    have hlength := hreads.length_eq
    refine ⟨slot, g, bytes, packets bytes, hsel, hreads, hlength, hseen, ?_,
      flatten_packets bytes⟩
    rw [length_packets, hlength]
    rfl

end Outcomes

/-! ## On the bench -/

section Bench

open Bench (Rig awaitCollected_flash)

/-- A programmer that targets an erased part of 1 MiB, and a host that asks for page 3. -/
def pageAsked : Station Rig :=
  serve (.targetDevice 0 0)
    (Rig.enumerated ⟨some { id := [0xEF, 0x40, 0x14], size := 0x100000 }, none, none⟩ [[4, 3, 0, 0]])

/-- The page is sent in four packets. -/
theorem one_outcome_page :
    Reachable pageAsked.1 ∧ (frame? pageAsked).map Prod.fst = some [4, 3, 0, 0] ∧
    (pageAsked.2.device.endpoints.get .flash .toHost).stalled = false ∧ Prompt pageAsked.2 ∧
    (serviceGlimpse pageAsked).sent.length = 4 ∧ (serviceGlimpse pageAsked).taken = 1 := by
  have hs : Reachable pageAsked.1 := .served _ _ (.start {})
  have hsome : (frame? pageAsked).map Prod.fst = some [4, 3, 0, 0] := by decide +kernel
  have hopen : (pageAsked.2.device.endpoints.get .flash .toHost).stalled = false := by
    decide +kernel
  have hprompt : Prompt pageAsked.2 := fun w _ =>
    congrArg Prod.fst (awaitCollected_flash _ ⟨pageAsked.2.device, w⟩)
  have hsel : pageAsked.1.selected =
      some (.local1, (Part.sectored 0x40 0x14).geometry ⟨0xEF, 0x40, 0x14⟩) := by
    decide +kernel
  have hquiet : (serviceGlimpse pageAsked).halts = [] := by decide +kernel
  obtain ⟨⟨_, s'⟩, hframe, rfl⟩ := Option.map_eq_some_iff.mp hsome
  obtain ⟨_, _, hread, _⟩ := one_outcome hs hframe hopen hprompt
  refine ⟨hs, hsome, hopen, hprompt, ?_⟩
  rcases hread (.ofNat 3) (by decide) with
    hhalted | ⟨slot, g, bytes, sent, hsel', _, _, hseen, hcount, _⟩
  · rw [hhalted] at hquiet
    cases hquiet
  · obtain ⟨rfl, rfl⟩ := selected_unique hsel hsel'
    rw [hseen]
    exact ⟨hcount, rfl⟩

end Bench

end FlashProgrammer.Programmer
