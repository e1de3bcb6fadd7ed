import FlashProgrammer.Proofs.Trace.CommittedPackets
import FlashProgrammer.Proofs.Usb.BulkMoves
import FlashProgrammer.Proofs.Usb.Packets

/-!
# What the host sees of a request

The host sees a request by the flash endpoint: by the packets that it collects, by the halts
that it runs into and by how many of its own packets are gone.  `glimpse` reads these three
from what the controller was asked.

`shows` are the actions that count for it.  So a glimpse of a trace is a glimpse of what an
onlooker of those actions sees, and for that there are only three things that requests do:
take packets, send bytes and halt an endpoint.
-/

namespace FlashProgrammer.Trace

open Flash Programmer Usb

/-- What the host sees of the flash endpoint. -/
structure Glimpse where
  /-- The packets that were committed for the host, oldest first. -/
  sent : List (List UInt8)
  /-- The halts, of any endpoint. -/
  halts : List (Endpoint × Direction)
  /-- How many packets of the host were released. -/
  taken : Nat
deriving DecidableEq, Repr

/-- The endpoint that an action halts. -/
def halt? : Usb.Action → Option (Endpoint × Direction)
  | .stall ep dir => some (ep, dir)
  | _ => none

/-- The action releases a packet that the host sent to the flash endpoint. -/
def releases : Usb.Action → Bool
  | .rxDone ep _ => ep = .flash
  | _ => false

def glimpse (as : List Usb.Action) : Glimpse where
  sent := (committed .flash [] as).map Prod.fst
  halts := as.filterMap halt?
  taken := as.countP releases

/-- The host may see something of the action. -/
def shows (a : Usb.Action) : Bool := sendsOn .flash a || (halt? a).isSome || releases a

/-- What shows nothing may be left out. -/
theorem glimpse_filter (as : List Usb.Action) : glimpse (as.filter shows) = glimpse as := by
  have hsent : committed .flash [] (as.filter shows) = committed .flash [] as :=
    committed_filter (fun a ha => by simp [shows, ha]) [] as
  have hhalts : (as.filter shows).filterMap halt? = as.filterMap halt? := by
    rw [List.filterMap_filter]
    refine congrArg (fun f => as.filterMap f) ?_
    funext a
    cases hhalt : halt? a <;> simp [shows, hhalt]
  have htaken : (as.filter shows).countP releases = as.countP releases := by
    rw [List.countP_filter]
    refine congrArg (fun p => as.countP p) ?_
    funext a
    cases hreleases : releases a <;> simp [shows, hreleases]
  rw [glimpse, hsent, hhalts, htaken, glimpse]

/-- What is shown of receiving is that packets are released. -/
theorem releases_of_receives {a : Usb.Action} (hreceives : a.receives = true)
    (hshows : shows a = true) : releases a = true := by
  cases a with
  | rxReady | rxCount | fifoRead | rxDone => exact hshows
  | _ => cases hreceives

/-! ## Taking, sending and halting -/

/-- What is seen if some packets were taken before. -/
def Glimpse.after (taken : Nat) (x : Glimpse) : Glimpse := { x with taken := taken + x.taken }

/-- Each packet that is taken counts, and is all there is to see of it. -/
theorem glimpse_taking {as : List Usb.Action} (h : ∀ a ∈ as, releases a = true)
    (bs : List Usb.Action) : glimpse (as ++ bs) = (glimpse bs).after as.length := by
  have hquiet : ∀ a ∈ as, sendsOn .flash a = false ∧ halt? a = none := by
    intro a ha
    have hreleases := h a ha
    cases a <;> first | exact ⟨rfl, rfl⟩ | cases hreleases
  have hhalts : as.filterMap halt? = [] :=
    List.filterMap_eq_nil_iff.mpr fun a ha => (hquiet a ha).2
  rw [glimpse, committed_of_quiet fun a ha => (hquiet a ha).1, List.filterMap_append, hhalts,
    List.countP_append, List.countP_eq_length.mpr h]
  rfl

/-- How bytes are sent on the flash endpoint. -/
def sendActions (data : List UInt8) : List Usb.Action :=
  (packets data).flatMap fun packet => fifoWrites .flash packet ++ [.txReady .flash false]

theorem eq_of_mem_sendActions {data : List UInt8} {a : Usb.Action} (h : a ∈ sendActions data) :
    (∃ width value, a = .fifoWrite .flash width value) ∨ a = .txReady .flash false := by
  obtain ⟨packet, _, hmem⟩ := List.mem_flatMap.mp h
  rcases List.mem_append.mp hmem with hbyte | hlast
  · exact .inl (eq_of_mem_fifoWrites hbyte)
  · exact .inr (List.mem_singleton.mp hlast)

/-- The host sees the packets of what is sent. -/
theorem glimpse_sendActions (data : List UInt8) :
    glimpse (sendActions data) = ⟨packets data, [], 0⟩ := by
  have hsent : ∀ packets : List (List UInt8),
      (committed .flash [] (packets.flatMap fun packet =>
        fifoWrites .flash packet ++ [.txReady .flash false])).map Prod.fst = packets := by
    intro packets
    induction packets with
    | nil => rfl
    | cons packet rest ih => rw [List.flatMap_cons, committed_packet, List.map_cons, ih]
  have hhalts : (sendActions data).filterMap halt? = [] := by
    refine List.filterMap_eq_nil_iff.mpr fun a ha => ?_
    rcases eq_of_mem_sendActions ha with ⟨_, _, rfl⟩ | rfl <;> rfl
  have htaken : (sendActions data).countP releases = 0 := by
    refine List.countP_eq_zero.mpr fun a ha => ?_
    rcases eq_of_mem_sendActions ha with ⟨_, _, rfl⟩ | rfl <;> exact nofun
  rw [glimpse, hhalts, htaken, sendActions, hsent]

/-! ## The SPI bus -/

/-- The SPI actions of a trace, oldest first. -/
def busActions (es : List Event) : List Spi.Action :=
  es.filterMap fun
    | .spi a _ => some a
    | _ => none

variable {ω : Type}

/-- Using the controller moves nothing on the SPI bus. -/
theorem busActions_of_used [Controller ω] {w w' : Traced ω} (h : Used w w') :
    busActions w'.events = busActions w.events :=
  h.preserves (P := fun v => busActions v.events = busActions w.events)
    (fun a v hv => by
      show busActions (v.events ++ [_]) = _
      rw [busActions, List.filterMap_append]
      exact (List.append_nil _).trans hv)
    rfl

/-- Answering a request asks nothing of the controller. -/
theorem drives_answer [Spi.Bus ω] [ResetLine ω] (r : Protocol.Request) (s : Programmer)
    (w : Traced ω) : Drives [] w (s.answer r w).2.2 := by
  have htraced := isView_besideActions (ω := ω)
  have hfixed := isView_beside (ω := ω) (controllerActions w.events)
  have hdrives : ∀ w' : Traced ω, controllerActions w'.events = controllerActions w.events →
      Drives [] w w' := fun w' h => h.trans (List.append_nil _).symm
  cases r with
  | listDevice number bus =>
    exact hdrives _ (congrArg (fun listed => listed.2.usb)
      ((listDevice_view htraced number bus w).symm.trans
        (listDevice_view hfixed number bus w.hw)))
  | targetDevice number bus =>
    exact hdrives _ (congrArg (fun targeted => targeted.2.usb)
      ((targetDevice_view htraced number bus s w).symm.trans
        (targetDevice_view hfixed number bus s w.hw)))
  | erase operation first last =>
    exact hdrives _ (congrArg (fun erased => erased.2.2.usb)
      ((erase_view htraced operation first.val last.val s w).symm.trans
        (erase_view hfixed operation first.val last.val s w.hw)))
  | verify =>
    exact hdrives _ (congrArg (fun verified => verified.2.usb)
      ((verify_view htraced s w).symm.trans (verify_view hfixed s w.hw)))
  | resetTarget =>
    refine hdrives _ ?_
    show controllerActions ((w.events ++ [_]) ++ [_]) = _
    rw [controllerActions, List.filterMap_append, List.filterMap_append]
    exact (List.append_nil _).trans (List.append_nil _)
  | deviceCount | read | write => exact drives_refl w

end FlashProgrammer.Trace
