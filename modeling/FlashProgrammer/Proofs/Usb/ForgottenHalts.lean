import FlashProgrammer.Proofs.Usb.HaltRecords
import Mathlib.Data.List.Induction

/-!
# Forgotten halts

A device should say of an endpoint that it is halted exactly while the controller halts it.  It does
not always: a bus reset, a pulled cable and a detach take every flag back, a chosen configuration
those of the flash endpoint, and none of them tells the controller, as clearing the halt does.

`Forgotten` is what is left then, a halt that the controller keeps and the device does not know of.
`halt_flags_exact` says that this is the only way in which the two sides come to differ, and what
the host and the main loop see of it.
-/

namespace FlashProgrammer.Usb

/-! ## Histories -/

namespace HaltEvent

/-- The event is a command for an endpoint and direction. -/
def concerns (ep : Endpoint) (dir : Direction) (e : HaltEvent) : Bool :=
  e.command?.any fun c => c.endpoint = ep ∧ c.direction = dir

variable {ep : Endpoint} {dir : Direction}

theorem concerns_of_command? {e : HaltEvent} {halts : Bool}
    (h : e.command? = some ⟨ep, dir, halts⟩) : e.concerns ep dir = true := by
  simp [concerns, h]

/-- A command for the endpoint decides its halt, and nothing else touches it. -/
theorem obeyed_cases (ep : Endpoint) (dir : Direction) (e : HaltEvent) :
    (e.concerns ep dir = false ∧ ∀ halted, e.obeyed ep dir halted = halted) ∨
    (e.concerns ep dir = true ∧ ∃ halts, e.command? = some ⟨ep, dir, halts⟩ ∧
      ∀ halted, e.obeyed ep dir halted = halts) := by
  rw [concerns]
  cases hcommand : e.command? with
  | none =>
    refine .inl ⟨rfl, fun halted => ?_⟩
    rw [obeyed, hcommand]
    rfl
  | some c =>
    by_cases hsame : c.endpoint = ep ∧ c.direction = dir
    · refine .inr ⟨decide_eq_true hsame, c.halts, ?_, fun halted => ?_⟩
      · obtain ⟨rfl, rfl⟩ := hsame
        rfl
      · rw [obeyed, hcommand]
        exact if_pos hsame
    · refine .inl ⟨decide_eq_false hsame, fun halted => ?_⟩
      rw [obeyed, hcommand]
      exact if_neg hsame

end HaltEvent

/-- The events since the command that halts an endpoint and still stands. -/
def HaltedSince (ep : Endpoint) (dir : Direction) (past since : List HaltEvent) : Prop :=
  ∃ before e, past = before ++ e :: since ∧ e.command? = some ⟨ep, dir, true⟩ ∧
    ∀ e' ∈ since, e'.concerns ep dir = false

/-- A halt still stands, and the device took its flag back without a command. -/
def Forgotten (offered : UInt8) (ep : Endpoint) (dir : Direction) (past : List HaltEvent) : Prop :=
  ∃ since, HaltedSince ep dir past since ∧ ∃ e ∈ since, e.forgets offered ep = true

section Histories

variable {offered : UInt8} {ep : Endpoint} {dir : Direction}

/-- With one more event a halt stands if that set it, or if it stood and was not concerned. -/
theorem haltedSince_append {past since : List HaltEvent} {e : HaltEvent} :
    HaltedSince ep dir (past ++ [e]) since ↔
      (since = [] ∧ e.command? = some ⟨ep, dir, true⟩) ∨
      ∃ earlier, since = earlier ++ [e] ∧ e.concerns ep dir = false ∧
        HaltedSince ep dir past earlier := by
  constructor
  · rintro ⟨before, x, hsplit, hcommand, hsince⟩
    rcases List.eq_nil_or_concat since with rfl | ⟨earlier, last, rfl⟩
    · cases List.singleton_inj.mp (List.append_inj' hsplit rfl).2
      exact .inl ⟨rfl, hcommand⟩
    · have hshape : past ++ [e] = (before ++ x :: earlier) ++ [last] := by simpa using hsplit
      obtain ⟨hpast, hlast⟩ := List.append_inj' hshape rfl
      obtain rfl := List.singleton_inj.mp hlast
      refine .inr ⟨earlier, List.concat_eq_append, hsince e (by simp), before, x, hpast, hcommand,
        ?_⟩
      exact fun e' he' => hsince e' (by simp [he'])
  · rintro (⟨rfl, hcommand⟩ | ⟨earlier, rfl, hquiet, before, x, rfl, hcommand, hsince⟩)
    · exact ⟨past, e, rfl, hcommand, by simp⟩
    · exact ⟨before, x, by simp, hcommand,
        List.forall_mem_append.mpr ⟨hsince, List.forall_mem_singleton.mpr hquiet⟩⟩

theorem not_haltedSince_nil {since : List HaltEvent} : ¬HaltedSince ep dir [] since := by
  rintro ⟨before, e, hsplit, _⟩
  simp at hsplit

/-- At most one halt stands. -/
theorem HaltedSince.unique {past since since' : List HaltEvent}
    (h : HaltedSince ep dir past since) (h' : HaltedSince ep dir past since') : since = since' := by
  induction past using List.reverseRecOn generalizing since since' with
  | nil => exact absurd h not_haltedSince_nil
  | append_singleton past e ih =>
    rcases haltedSince_append.mp h with ⟨rfl, hcommand⟩ | ⟨earlier, rfl, hquiet, hstood⟩
    · rcases haltedSince_append.mp h' with ⟨rfl, _⟩ | ⟨_, _, hquiet, _⟩
      · rfl
      · cases hquiet.symm.trans (HaltEvent.concerns_of_command? hcommand)
    · rcases haltedSince_append.mp h' with ⟨_, hcommand⟩ | ⟨earlier', rfl, _, hstood'⟩
      · cases hquiet.symm.trans (HaltEvent.concerns_of_command? hcommand)
      · rw [ih hstood hstood']

/-- The controller halts an endpoint exactly while a halt stands. -/
theorem foldl_obeyed_iff (past : List HaltEvent) :
    past.foldl (HaltEvent.obeyed ep dir) false = true ↔
      ∃ since, HaltedSince ep dir past since := by
  induction past using List.reverseRecOn with
  | nil => simp [not_haltedSince_nil]
  | append_singleton past e ih =>
    simp only [List.foldl_append, List.foldl_cons, List.foldl_nil, haltedSince_append]
    rcases e.obeyed_cases ep dir with ⟨hquiet, hsame⟩ | ⟨hconcerns, halts, hcommand, hset⟩
    · have hnone : e.command? ≠ some ⟨ep, dir, true⟩ := fun hcommand =>
        Bool.false_ne_true (hquiet.symm.trans (HaltEvent.concerns_of_command? hcommand))
      rw [hsame, ih]
      constructor
      · rintro ⟨since, hstands⟩
        exact ⟨since ++ [e], .inr ⟨since, rfl, hquiet, hstands⟩⟩
      · rintro ⟨_, ⟨_, hcommand⟩ | ⟨since, _, _, hstands⟩⟩
        · exact absurd hcommand hnone
        · exact ⟨since, hstands⟩
    · rw [hset, hcommand, hconcerns]
      constructor
      · rintro rfl
        exact ⟨[], .inl ⟨rfl, rfl⟩⟩
      · rintro ⟨_, ⟨_, hcommand⟩ | ⟨_, _, hquiet, _⟩⟩
        · cases hcommand
          rfl
        · cases hquiet

/-- The device has its flag set exactly while a halt stands that it did not take back. -/
theorem foldl_recorded_iff (past : List HaltEvent) :
    past.foldl (HaltEvent.recorded offered ep dir) false = true ↔
      ∃ since, HaltedSince ep dir past since ∧ ∀ e ∈ since, e.forgets offered ep = false := by
  induction past using List.reverseRecOn with
  | nil => simp [not_haltedSince_nil]
  | append_singleton past e ih =>
    simp only [List.foldl_append, List.foldl_cons, List.foldl_nil, haltedSince_append,
      HaltEvent.recorded, Bool.and_eq_true, Bool.not_eq_true']
    rcases e.obeyed_cases ep dir with ⟨hquiet, hsame⟩ | ⟨hconcerns, halts, hcommand, hset⟩
    · have hnone : e.command? ≠ some ⟨ep, dir, true⟩ := fun hcommand =>
        Bool.false_ne_true (hquiet.symm.trans (HaltEvent.concerns_of_command? hcommand))
      rw [hsame, ih]
      constructor
      · rintro ⟨hkept, since, hstands, hsince⟩
        exact ⟨since ++ [e], .inr ⟨since, rfl, hquiet, hstands⟩,
          List.forall_mem_append.mpr ⟨hsince, List.forall_mem_singleton.mpr hkept⟩⟩
      · rintro ⟨_, ⟨_, hcommand⟩ | ⟨since, rfl, _, hstands⟩, hsince⟩
        · exact absurd hcommand hnone
        · obtain ⟨hearlier, hlast⟩ := List.forall_mem_append.mp hsince
          exact ⟨hlast e (List.mem_singleton_self e), since, hstands, hearlier⟩
    · have hkept : e.forgets offered ep = false := HaltEvent.forgets_of_command? hcommand offered
      rw [hset, hcommand, hconcerns]
      constructor
      · rintro ⟨_, rfl⟩
        exact ⟨[], .inl ⟨rfl, rfl⟩, by simp⟩
      · rintro ⟨_, ⟨_, hcommand⟩ | ⟨_, _, hquiet, _⟩, _⟩
        · cases hcommand
          exact ⟨hkept, rfl⟩
        · cases hquiet

/-- A flag is only set while the controller halts, and the two differ exactly over a forgotten
halt. -/
theorem differ_iff_forgotten (offered : UInt8) (ep : Endpoint) (dir : Direction)
    (past : List HaltEvent) :
    let flag := past.foldl (HaltEvent.recorded offered ep dir) false
    let halted := past.foldl (HaltEvent.obeyed ep dir) false
    (flag = true → halted = true) ∧ (flag ≠ halted ↔ Forgotten offered ep dir past) := by
  intro flag halted
  have hhalted : halted = true ↔ ∃ since, HaltedSince ep dir past since := foldl_obeyed_iff past
  have hflag : flag = true ↔ ∃ since, HaltedSince ep dir past since ∧
      ∀ e ∈ since, e.forgets offered ep = false := foldl_recorded_iff past
  have hle : flag = true → halted = true := fun hset => by
    obtain ⟨since, hstands, _⟩ := hflag.mp hset
    exact hhalted.mpr ⟨since, hstands⟩
  refine ⟨hle, fun hdiffer => ?_, ?_⟩
  · have hset : halted = true := by
      cases hh : halted with
      | true => rfl
      | false =>
        rw [hh] at hdiffer hle
        exact hle (Bool.of_not_eq_false hdiffer)
    obtain ⟨since, hstands⟩ := hhalted.mp hset
    refine ⟨since, hstands, ?_⟩
    by_contra hnone
    refine hdiffer (Eq.trans (hflag.mpr ⟨since, hstands, fun e he => ?_⟩) hset.symm)
    rw [← Bool.not_eq_true]
    exact fun hforgets => hnone ⟨e, he, hforgets⟩
  · rintro ⟨since, hstands, e, he, hforgets⟩ hsame
    obtain ⟨since', hstands', hkept⟩ := hflag.mp (hsame.trans (hhalted.mpr ⟨since, hstands⟩))
    rw [hstands.unique hstands'] at he
    rw [hkept e he] at hforgets
    cases hforgets

end Histories

/-! ## Runs -/

section Runs

open Bench

/-- Where the flag of an endpoint and the halt of the controller agree.

From power-on some operations led to `p`, on a controller whose halts nothing but the device
changes.  On every bulk endpoint and direction the flag is set only while the controller halts, and
the two differ exactly if the halt was forgotten.  So GET_STATUS reports a halt, and a configured
device refuses bulk data because of one, exactly if the controller halts and the halt was not
forgotten. -/
theorem halt_flags_exact (descriptors : Descriptors) (budget : WaitBudget)
    {ops : List (Operation FifoController)} (hspares : ∀ op ∈ ops, op.SparesHalts)
    {ep : Endpoint} (hbulk : ep ≠ .control) (dir : Direction) :
    let off : Link FifoController := ⟨{ descriptors, budget }, {}⟩
    let p := Operation.runAll ops off
    let flag := (p.device.endpoints.get ep dir).stalled
    let halted := p.hw.halted.get ep dir
    let forgotten :=
      Forgotten descriptors.configurationValue ep dir (Operation.haltHistory ops off)
    (flag = true → halted = true) ∧ (flag ≠ halted ↔ forgotten) ∧
    (∀ s : Setup, StandardRequest.ofByte? s.request = some .getStatus → s.recipient = .endpoint →
      s.endpoint? = some (ep, dir) →
        ((p.standardRequest s).1 = .data (.reply [1, 0]) ↔ halted = true ∧ ¬forgotten) ∧
        ((p.standardRequest s).1 = .data (.reply [0, 0]) ↔ ¬(halted = true ∧ ¬forgotten))) ∧
    (p.device.isConfigured = true → ∀ n : UInt8, Endpoint.ofByte? n = some ep →
      (p.bulkEndpoint n dir = .error (.stalled n) ↔ halted = true ∧ ¬forgotten) ∧
      (p.bulkEndpoint n dir = .ok ep ↔ ¬(halted = true ∧ ¬forgotten))) := by
  intro off p flag halted forgotten
  have hflag : flag = _ := Operation.halts_history ops
    (recorded_start .detached descriptors.configurationValue : Recorded _ [] off.device.progress)
    ep dir
  have hhalted : p.hw.halted.get ep dir = _ := Operation.halted_history hbulk hspares off
  have hstart : off.device.halts ep dir = false := by
    simp [Device.halts, off]
  have hfree : off.hw.halted.get ep dir = false := by
    simp [off]
  rw [hstart] at hflag
  rw [hfree] at hhalted
  obtain ⟨hle, hdiffer⟩ := differ_iff_forgotten descriptors.configurationValue ep dir
    (Operation.haltHistory ops off)
  rw [← hflag, ← hhalted] at hle hdiffer
  have hset : flag = true ↔ halted = true ∧ ¬forgotten := by
    rw [show forgotten ↔ flag ≠ halted from hdiffer.symm, not_not]
    constructor
    · exact fun h => ⟨hle h, h.trans (hle h).symm⟩
    · exact fun h => h.2.trans h.1
  refine ⟨hle, hdiffer, fun s hrequest hrecipient hendpoint => ?_, fun hconfigured n hn => ?_⟩
  · have hreply : (p.standardRequest s).1 = .data (.reply [if flag then 1 else 0, 0]) := by
      simp only [Link.standardRequest, hrequest, hrecipient, hendpoint]
      rfl
    rw [← hset, hreply]
    cases flag <;> decide
  · have hgate : p.bulkEndpoint n dir = if flag then .error (.stalled n) else .ok ep := by
      simp only [Link.bulkEndpoint, hconfigured, hn, if_true, if_neg hbulk]
      rfl
    rw [← hset, hgate]
    cases flag <;> simp

end Runs

/-! ## On the bench -/

section Bench

open Bench

/-- A device is configured, and the main loop halts the flash endpoint for data to the host. -/
def halting : List (Operation FifoController) :=
  addressing ++ hostSends (configurationSetup 1).toBytes ++ hostCollects ++
    [.stallEndpoint 1 .toHost]

/-- Then the host chooses the configuration again. -/
def haltingThenConfiguring : List (Operation FifoController) :=
  halting ++ hostSends (configurationSetup 1).toBytes ++ hostCollects

/-- The SETUP packet that asks whether the flash endpoint is halted for data to the host. -/
def haltStatusSetup : Setup :=
  { requestType := 0x82, request := 0, value := 0, index := 0x81, length := 2 }

/-- A device that halted the endpoint reports it and keeps bulk data off. -/
theorem halt_flags_exact_halted :
    let p := Operation.runAll halting ⟨{}, {}⟩
    (∀ op ∈ halting, op.SparesHalts) ∧ Endpoint.flash ≠ .control ∧ p.device.isConfigured = true ∧
      p.hw.halted.get .flash .toHost = true ∧
      ¬Forgotten 1 .flash .toHost (Operation.haltHistory halting ⟨{}, {}⟩) ∧
      (p.standardRequest haltStatusSetup).1 = .data (.reply [1, 0]) ∧
      p.bulkEndpoint 1 .toHost = .error (.stalled 1) := by
  intro p
  have hspares : ∀ op ∈ halting, op.SparesHalts := by
    simp [halting, addressing, hostSends, hostCollects, Operation.SparesHalts]
  have hconfigured : p.device.isConfigured = true := by decide +kernel
  have hhalted : p.hw.halted.get .flash .toHost = true := by decide +kernel
  have hflag : (p.device.endpoints.get .flash .toHost).stalled = true := by decide +kernel
  obtain ⟨_, hdiffer, hstatus, hgate⟩ :=
    halt_flags_exact {} {} hspares (show Endpoint.flash ≠ .control by decide) .toHost
  have hkept := mt hdiffer.mpr fun hne => hne (hflag.trans hhalted.symm)
  refine ⟨hspares, by decide, hconfigured, hhalted, hkept, ?_, ?_⟩
  · exact (hstatus haltStatusSetup rfl rfl rfl).1.mpr ⟨hhalted, hkept⟩
  · exact (hgate hconfigured 1 rfl).1.mpr ⟨hhalted, hkept⟩

/-- Choosing the configuration again takes the flag back and leaves the controller halted.  The
device reports that nothing is halted and accepts bulk data that the host cannot collect. -/
theorem chosen_configuration_forgets_halt :
    let p := Operation.runAll haltingThenConfiguring ⟨{}, {}⟩
    (∀ op ∈ haltingThenConfiguring, op.SparesHalts) ∧ p.device.isConfigured = true ∧
      (p.device.endpoints.get .flash .toHost).stalled = false ∧
      p.hw.halted.get .flash .toHost = true ∧
      (p.standardRequest haltStatusSetup).1 = .data (.reply [0, 0]) ∧
      (p.write 1 [0x55]).1.isOk = true := by
  intro p
  refine ⟨?_, by decide +kernel⟩
  simp [haltingThenConfiguring, halting, addressing, hostSends, hostCollects,
    Operation.SparesHalts]

end Bench

end FlashProgrammer.Usb
