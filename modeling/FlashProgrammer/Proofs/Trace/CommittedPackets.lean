import FlashProgrammer.Proofs.Trace.Sightings

/-!
# The packets that a trace commits

Bytes are added to an IN FIFO one access at a time and leave as one packet when they are
committed.  `committed` reads the packets of an endpoint back from what the controller was
asked, each with the mark that it ends the data stage.

Whoever looks at these actions sees all packets, so what is overlooked makes no difference.
-/

namespace FlashProgrammer.Trace

open Usb

/-- An action builds or commits a packet of an endpoint. -/
def sendsOn (ep : Endpoint) : Usb.Action → Bool
  | .fifoWrite e .. | .txReady e _ => e = ep
  | _ => false

/-- The packets that some actions commit on an endpoint, after bytes that were added before.  With
each comes whether it was marked as the last one. -/
def committed (ep : Endpoint) : (staged : List UInt8) → List Usb.Action → List (List UInt8 × Bool)
  | _, [] => []
  | staged, .fifoWrite e width value :: as =>
    committed ep (if e = ep then staged ++ bytesOfValue width value else staged) as
  | staged, .txReady e last :: as =>
    if e = ep then (staged, last) :: committed ep [] as else committed ep staged as
  | staged, _ :: as => committed ep staged as

/-- The bytes that some actions leave in the FIFO of an endpoint without committing them, after
bytes that were added before. -/
def uncommitted (ep : Endpoint) : (staged : List UInt8) → List Usb.Action → List UInt8
  | staged, [] => staged
  | staged, .fifoWrite e width value :: as =>
    uncommitted ep (if e = ep then staged ++ bytesOfValue width value else staged) as
  | staged, .txReady e _ :: as => uncommitted ep (if e = ep then [] else staged) as
  | staged, _ :: as => uncommitted ep staged as

/-- What is left by the first actions goes into the first packet of the others. -/
theorem committed_append (ep : Endpoint) (staged : List UInt8) (as bs : List Usb.Action) :
    committed ep staged (as ++ bs) =
      committed ep staged as ++ committed ep (uncommitted ep staged as) bs := by
  induction as generalizing staged with
  | nil => rfl
  | cons a as ih =>
    cases a with
    | fifoWrite e width value => exact ih _
    | txReady e last =>
      rw [List.cons_append, committed, committed, uncommitted]
      split
      · rw [ih]
        rfl
      · exact ih staged
    | _ => exact ih staged

theorem uncommitted_append (ep : Endpoint) (staged : List UInt8) (as bs : List Usb.Action) :
    uncommitted ep staged (as ++ bs) = uncommitted ep (uncommitted ep staged as) bs := by
  induction as generalizing staged with
  | nil => rfl
  | cons a as ih => cases a <;> exact ih _

/-- Nothing is left when a packet was committed last. -/
@[simp] theorem uncommitted_txReady (ep : Endpoint) (staged : List UInt8) (as : List Usb.Action)
    (last : Bool) : uncommitted ep staged (as ++ [.txReady ep last]) = [] := by
  rw [uncommitted_append, uncommitted, if_pos rfl, uncommitted]

theorem committed_cons_of_not {ep : Endpoint} {a : Usb.Action} (h : sendsOn ep a = false)
    (staged : List UInt8) (as : List Usb.Action) :
    committed ep staged (a :: as) = committed ep staged as := by
  cases a with
  | fifoWrite e width value => rw [committed, if_neg (by simpa [sendsOn] using h)]
  | txReady e last => rw [committed, if_neg (by simpa [sendsOn] using h)]
  | _ => rfl

/-- What does not send on the endpoint may be left out. -/
theorem committed_filter {ep : Endpoint} {look : Usb.Action → Bool}
    (hlook : ∀ a, sendsOn ep a = true → look a = true) (staged : List UInt8)
    (as : List Usb.Action) : committed ep staged (as.filter look) = committed ep staged as := by
  induction as generalizing staged with
  | nil => rfl
  | cons a as ih =>
    cases hsends : sendsOn ep a with
    | true =>
      rw [List.filter_cons_of_pos (hlook a hsends)]
      cases a with
      | fifoWrite e width value => rw [committed, committed, ih]
      | txReady e last => rw [committed, committed, ih, ih]
      | _ => cases hsends
    | false =>
      rw [committed_cons_of_not hsends, ← ih]
      cases hseen : look a with
      | true => rw [List.filter_cons_of_pos hseen, committed_cons_of_not hsends]
      | false => rw [List.filter_cons_of_neg (by simp [hseen])]

/-- Nothing is committed by what does not send. -/
theorem committed_of_quiet {ep : Endpoint} {as : List Usb.Action}
    (h : ∀ a ∈ as, sendsOn ep a = false) (staged : List UInt8) (bs : List Usb.Action) :
    committed ep staged (as ++ bs) = committed ep staged bs := by
  induction as with
  | nil => rfl
  | cons a as ih =>
    rw [List.cons_append, committed_cons_of_not (h a List.mem_cons_self)]
    exact ih fun b hb => h b (List.mem_cons_of_mem a hb)

/-- Nothing is left by what does not send. -/
theorem uncommitted_of_quiet {ep : Endpoint} {as : List Usb.Action}
    (h : ∀ a ∈ as, sendsOn ep a = false) (staged : List UInt8) :
    uncommitted ep staged as = staged := by
  induction as with
  | nil => rfl
  | cons a as ih =>
    have hrest := ih fun b hb => h b (List.mem_cons_of_mem a hb)
    have hquiet := h a List.mem_cons_self
    cases a with
    | fifoWrite e width value =>
      rw [uncommitted, if_neg (by simpa [sendsOn] using hquiet), hrest]
    | txReady e last => rw [uncommitted, if_neg (by simpa [sendsOn] using hquiet), hrest]
    | _ => exact hrest

/-- The bytes that are written are the bytes of the packet. -/
theorem committed_fifoWrites (ep : Endpoint) (data staged : List UInt8) (as : List Usb.Action) :
    committed ep staged (fifoWrites ep data ++ as) = committed ep (staged ++ data) as := by
  have hword : ∀ width bs, bs.length = width.bytes →
      bytesOfValue width (valueOfBytes width bs) = bs :=
    fun width _ hbs => bytesOfValue_valueOfBytes width hbs
  fun_induction fifoWrites ep data generalizing staged with
  | case1 => rw [List.append_nil, List.nil_append]
  | case2 a => rw [List.singleton_append, committed, if_pos rfl, hword .byte [a] rfl]
  | case3 a b => rw [List.singleton_append, committed, if_pos rfl, hword .half [a, b] rfl]
  | case4 a b c =>
    rw [List.cons_append, List.singleton_append, committed, committed, if_pos rfl, if_pos rfl,
      hword .half [a, b] rfl, hword .byte [c] rfl, List.append_assoc]
    rfl
  | case5 a b c d rest ih =>
    rw [List.cons_append, committed, if_pos rfl, hword .word [a, b, c, d] rfl, ih,
      List.append_assoc]
    rfl

/-- A packet is committed as a whole. -/
theorem committed_packet (ep : Endpoint) (data : List UInt8) (last : Bool)
    (as : List Usb.Action) :
    committed ep [] (fifoWrites ep data ++ [.txReady ep last] ++ as) =
      (data, last) :: committed ep [] as := by
  rw [List.append_assoc, committed_fifoWrites, List.nil_append, List.singleton_append, committed,
    if_pos rfl]

end FlashProgrammer.Trace
