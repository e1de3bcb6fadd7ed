import FlashProgrammer.Proofs.Bench.Gate
import FlashProgrammer.Proofs.Usb.BulkMoves
import FlashProgrammer.Proofs.Usb.Packets
import FlashProgrammer.Proofs.Usb.TakenSetup

/-!
# Transfers on the flash endpoint

On a bench of FIFOs the packets of the host wait, and those of the firmware are kept.
`Awaits p waiting sent b` is a configured link between two requests: which packets
wait, which were sent, and the SPI bus beside the controller.

Every bulk function is told by what it does to that.  A packet comes as it was sent,
the data of a write comes whole however it was cut, and what is written leaves in
packets.
-/

namespace FlashProgrammer.Bench

open Usb

variable {β ρ : Type}

/-! ## FIFOs -/

/-- The flash endpoint of a bench, and the SPI bus beside the controller. -/
structure FlashSide (β : Type) where
  out : OutFifo
  into : InFifo
  spi : β

def flashSide (w : Fifos β ρ) : FlashSide β :=
  ⟨w.usb.out.get .flash, w.usb.into.get .flash, w.spi⟩

/-- Bytes of the waiting packet. -/
def FlashSide.take (x : FlashSide β) (n : Nat) : List UInt8 × FlashSide β :=
  ((x.out.take n).1, { x with out := (x.out.take n).2 })

theorem FlashSide.take_add (x : FlashSide β) (m n : Nat) :
    x.take (m + n) = ((x.take m).1 ++ ((x.take m).2.take n).1, ((x.take m).2.take n).2) := by
  simp only [take, OutFifo.take_add]

theorem take_flash (width : Width) (w : Fifos β ρ) :
    ((take .flash width w).1, flashSide (take .flash width w).2) =
      (flashSide w).take width.bytes := by
  have hlength : ((w.usb.out.get .flash).take width.bytes).1.length = width.bytes :=
    OutFifo.length_take ..
  have hout := PerEndpoint.get_set_self w.usb.out .flash
    ((w.usb.out.get .flash).take width.bytes).2
  refine Prod.ext (bytesOfValue_valueOfBytes width hlength) ?_
  exact congrArg (fun out => FlashSide.mk out (w.usb.into.get .flash) w.spi) hout

/-- Bytes of the waiting packet come in order. -/
theorem readFifo_flash (n : Nat) (w : Fifos β ρ) :
    ((readFifo .flash n w).1, flashSide (readFifo .flash n w).2) = (flashSide w).take n := by
  induction n using Nat.strongRecOn generalizing w with
  | _ n ih =>
    match n with
    | 0 => rfl
    | 1 => exact take_flash .byte w
    | 2 => exact take_flash .half w
    | 3 =>
      rw [FlashSide.take_add (flashSide w) 2 1, ← take_flash .half w, ← take_flash .byte]
      rfl
    | n + 4 =>
      rw [Nat.add_comm n 4, FlashSide.take_add (flashSide w) 4 n, ← take_flash .word w,
        ← ih n (by omega), Nat.add_comm 4 n]
      rfl

/-- More bytes of the packet that is being built. -/
def FlashSide.stage (x : FlashSide β) (data : List UInt8) : FlashSide β :=
  { x with into := { x.into with staged := x.into.staged ++ data } }

theorem FlashSide.stage_stage (x : FlashSide β) (data data' : List UInt8) :
    (x.stage data).stage data' = x.stage (data ++ data') := by
  simp only [stage, List.append_assoc]

theorem put_flash (width : Width) {data : List UInt8} (h : data.length = width.bytes)
    (w : Fifos β ρ) : flashSide (put .flash width data w) = (flashSide w).stage data := by
  show FlashSide.mk _ ((w.usb.into.set .flash _).get .flash) _ = _
  rw [PerEndpoint.get_set_self, bytesOfValue_valueOfBytes width h]
  rfl

theorem writeFifo_flash (data : List UInt8) (w : Fifos β ρ) :
    flashSide (writeFifo .flash data w) = (flashSide w).stage data := by
  fun_induction writeFifo .flash data w with
  | case1 w => simp [FlashSide.stage]
  | case2 | case3 => exact put_flash _ rfl _
  | case4 => rw [put_flash .byte rfl, put_flash .half rfl, FlashSide.stage_stage]; rfl
  | case5 a b c d rest w ih => rw [ih, put_flash .word rfl, FlashSide.stage_stage]; rfl

theorem rxDone_flash (dataEnd : Bool) (w : Fifos β ρ) :
    flashSide (tell (.rxDone .flash dataEnd) w) =
      { flashSide w with out := (flashSide w).out.release } := by
  show FlashSide.mk ((w.usb.out.set .flash _).get .flash) _ _ = _
  rw [PerEndpoint.get_set_self]
  rfl

theorem txReady_flash (last : Bool) (w : Fifos β ρ) :
    flashSide (tell (.txReady .flash last) w) =
      { flashSide w with
        into := ⟨[], (flashSide w).into.sent.push (flashSide w).into.staged⟩ } := by
  show FlashSide.mk _ ((w.usb.into.set .flash _).get .flash) _ = _
  rw [PerEndpoint.get_set_self]
  rfl

/-! ## Packets that wait -/

/-- Packets wait on a configured device whose flash endpoint is not halted in OUT direction. -/
structure Offers (p : Link (Fifos β ρ)) (waiting : List (List UInt8)) : Prop where
  lifecycle_eq : p.device.lifecycle = .configured
  out_open : (p.device.endpoints.get .flash .toDevice).stalled = false
  fifo_eq : (flashSide p.hw).out = ⟨waiting.map List.toArray, 0⟩

section Offering

variable {p : Link (Fifos β ρ)} {waiting : List (List UInt8)} {packet : List UInt8}

theorem Offers.side_eq (h : Offers p waiting) :
    flashSide p.hw = { flashSide p.hw with out := ⟨waiting.map List.toArray, 0⟩ } := by
  rw [← h.fifo_eq]

/-- The device is as before, and other packets wait. -/
theorem Offers.of_device {q : Link (Fifos β ρ)} {rest : List (List UInt8)} (h : Offers p waiting)
    (hdevice : q.device = p.device) (hout : (flashSide q.hw).out = ⟨rest.map List.toArray, 0⟩) :
    Offers q rest where
  lifecycle_eq := by
    rw [hdevice]
    exact h.lifecycle_eq
  out_open := by
    rw [hdevice]
    exact h.out_open
  fifo_eq := hout

theorem Offers.isConfigured (h : Offers p waiting) : p.device.isConfigured = true := by
  rw [Device.isConfigured, h.lifecycle_eq]
  rfl

theorem Offers.bulkEndpoint (h : Offers p waiting) :
    p.bulkEndpoint flashEndpoint .toDevice = .ok .flash := by
  have hflash : Endpoint.ofByte? flashEndpoint = some .flash := rfl
  simp only [Link.bulkEndpoint, h.isConfigured, hflash, h.out_open, if_true]
  rfl

theorem Offers.rxReady (h : Offers p waiting) :
    p.ask (.rxReady .flash) = (!waiting.isEmpty, p) := by
  show (!(flashSide p.hw).out.packets.isEmpty, p) = _
  rw [h.fifo_eq, List.isEmpty_map]

theorem Offers.rxPending (h : Offers p waiting) :
    p.rxPending flashEndpoint = (!waiting.isEmpty, p) := by
  have hflash : Endpoint.ofByte? flashEndpoint = some .flash := rfl
  simp only [Link.rxPending, hflash, h.isConfigured, h.out_open, h.rxReady]
  rfl

theorem Offers.awaitPacket (h : Offers p waiting) (spins : Nat) :
    p.awaitPacket .flash spins = (!waiting.isEmpty, p) := by
  induction spins with
  | zero => exact h.rxReady
  | succ spins ih =>
    simp only [Link.awaitPacket, h.rxReady]
    cases hempty : waiting.isEmpty with
    | true => rwa [hempty] at ih
    | false => rfl

theorem Offers.readPacket_nil (h : Offers p []) (room : Nat) :
    p.readPacket flashEndpoint room = (.error (.usbTimeout flashEndpoint), p) := by
  simp only [Link.readPacket, h.bulkEndpoint, h.awaitPacket]
  rfl

/-- The oldest packet comes as far as there is room for it, and is gone. -/
theorem Offers.readPacket (h : Offers p (packet :: waiting)) (hlength : packet.length ≤ maxPacket)
    (room : Nat) :
    ∃ q, p.readPacket flashEndpoint room = (.ok (packet.take room), q) ∧
      q.device = p.device ∧
      flashSide q.hw = { flashSide p.hw with out := ⟨waiting.map List.toArray, 0⟩ } := by
  have hcount : p.ask (.rxCount .flash) = (UInt16.ofNat packet.length, p) := by
    show (UInt16.ofNat (flashSide p.hw).out.left, p) = _
    rw [h.fifo_eq]
    rfl
  have hnat : (UInt16.ofNat packet.length).toNat = packet.length := by
    have hsmall : packet.length < 65536 := Nat.lt_of_le_of_lt hlength (by decide)
    rw [UInt16.toNat_ofNat', Nat.mod_eq_of_lt hsmall]
  have hcut : packet.take (min packet.length room) = packet.take room := by
    rw [Nat.min_comm, ← List.take_take, List.take_length]
  have hread := readFifo_flash (min packet.length room) p.hw
  rw [FlashSide.take, h.fifo_eq, List.map_cons, OutFifo.take_packet (Nat.min_le_left _ _), hcut] at hread
  obtain ⟨hbytes, hside⟩ := Prod.mk.inj hread
  generalize hdropped : (readFifo .flash (min (packet.length - min packet.length room) maxPacket)
    (readFifo .flash (min packet.length room) p.hw).2).2 = w
  have hdrop : flashSide w = { flashSide p.hw with
      out := ⟨packet.toArray :: waiting.map List.toArray,
        min packet.length room + min (packet.length - min packet.length room) maxPacket⟩ } := by
    rw [← hdropped]
    refine (congrArg Prod.snd (readFifo_flash _ _)).trans ?_
    rw [hside]
    rfl
  refine ⟨{ p with hw := w }.tell (.rxDone .flash false), ?_, rfl, ?_⟩
  · simp only [Link.readPacket, h.bulkEndpoint, h.awaitPacket, List.isEmpty_cons, Bool.not_false,
      Link.takePacket, hcount, hnat, hbytes, hdropped]
  · show flashSide (tell (.rxDone .flash false) w) = _
    rw [rxDone_flash, hdrop]
    rfl

/-- Packets that are taken for some bytes, and what comes of them.  Only the last of them may bring
more than is needed. -/
structure Feeds (taken : List (List UInt8)) (need : Nat) (bytes : List UInt8) : Prop where
  bytes_eq : bytes = taken.flatten.take need
  last : taken ≠ [] → taken.dropLast.flatten.length < need

theorem feeds_nothing (need : Nat) : Feeds [] need [] where
  bytes_eq := by rw [List.flatten_nil, List.take_nil]
  last := fun hne => absurd rfl hne

theorem Feeds.cons {taken : List (List UInt8)} {need : Nat} {bytes : List UInt8}
    (h : Feeds taken (need - packet.length) bytes) (hneed : 0 < need) :
    Feeds (packet :: taken) need (packet.take need ++ bytes) where
  bytes_eq := by rw [List.flatten_cons, List.take_append, ← h.bytes_eq]
  last := fun _ => by
    cases taken with
    | nil => exact hneed
    | cons next taken =>
      have hmore := h.last (List.cons_ne_nil next taken)
      rw [List.dropLast_cons_of_ne_nil (List.cons_ne_nil next taken), List.flatten_cons,
        List.length_append]
      omega

/-- What is gathered comes from the front of the packets that wait. -/
theorem Offers.gather (h : Offers p waiting)
    (hfits : ∀ packet ∈ waiting, packet.length ≤ maxPacket) {fuel need : Nat}
    (hfuel : need ≤ fuel) :
    ∃ taken rest, waiting = taken ++ rest ∧
      Feeds taken need (p.gather flashEndpoint fuel need).1.bytes ∧
      flashSide (p.gather flashEndpoint fuel need).2.hw =
        { flashSide p.hw with out := ⟨rest.map List.toArray, 0⟩ } := by
  induction fuel generalizing p waiting need with
  | zero => exact ⟨[], waiting, rfl, feeds_nothing need, h.side_eq⟩
  | succ fuel ih =>
    rw [Link.gather]
    split
    · exact ⟨[], waiting, rfl, feeds_nothing need, h.side_eq⟩
    · next hneed =>
      have hpos := Nat.pos_of_ne_zero hneed
      cases waiting with
      | nil =>
        rw [h.readPacket_nil]
        exact ⟨[], [], rfl, feeds_nothing need, h.side_eq⟩
      | cons packet waiting =>
        obtain ⟨q, hread, hdevice, hside⟩ := h.readPacket (hfits packet List.mem_cons_self) need
        have hq : Offers q waiting := h.of_device hdevice (congrArg FlashSide.out hside)
        have hcut : (packet.take need).length = min need packet.length := List.length_take
        rw [hread]
        simp only
        split
        · -- An empty packet ends it.
          next hempty =>
          have hbytes := (feeds_nothing (need - packet.length)).cons hpos
          rw [List.append_nil, List.isEmpty_iff.mp hempty] at hbytes
          exact ⟨[packet], waiting, rfl, hbytes, hside⟩
        · next hsome =>
          have hnonempty : 0 < (packet.take need).length := by
            rw [List.length_pos_iff]
            exact fun hnil => hsome (List.isEmpty_iff.mpr hnil)
          have hleft : need - (packet.take need).length = need - packet.length := by
            rw [hcut]
            omega
          obtain ⟨taken, rest, hsplit, hfeeds, hrest⟩ := ih hq
            (fun packet hin => hfits packet (List.mem_cons_of_mem _ hin))
            (show need - packet.length ≤ fuel by omega)
          rw [hleft]
          refine ⟨packet :: taken, rest, congrArg (packet :: ·) hsplit, hfeeds.cons hpos, ?_⟩
          rw [hrest, hside]

end Offering

/-! ## A link between two requests -/

/-- The device is configured and awake, neither direction of the flash endpoint is halted, and
nothing is left to do. -/
structure Live (d : Device) : Prop where
  lifecycle_eq : d.lifecycle = .configured
  awake : d.suspended = false
  out_open : (d.endpoints.get .flash .toDevice).stalled = false
  in_open : (d.endpoints.get .flash .toHost).stalled = false
  idle : d.queue.toList = []

/-- A live link with the packets that wait, the packets that were sent, and the SPI bus. -/
structure Awaits (p : Link (Fifos β ρ)) (waiting : List (List UInt8)) (sent : Record (List UInt8))
    (b : β) : Prop where
  live : Live p.device
  side_eq : flashSide p.hw = ⟨⟨waiting.map List.toArray, 0⟩, ⟨[], sent⟩, b⟩

variable {p : Link (Fifos β ρ)} {waiting : List (List UInt8)} {packet : List UInt8}
  {sent : Record (List UInt8)} {b : β}

theorem Live.isConfigured {d : Device} (h : Live d) : d.isConfigured = true := by
  rw [Device.isConfigured, h.lifecycle_eq]
  rfl

theorem Live.bulkEndpoint (h : Live p.device) (dir : Direction) :
    p.bulkEndpoint flashEndpoint dir = .ok .flash := by
  have hflash : Endpoint.ofByte? flashEndpoint = some .flash := rfl
  have hopen : (p.device.endpoints.get .flash dir).stalled = false := by
    cases dir with
    | toDevice => exact h.out_open
    | toHost => exact h.in_open
  simp only [Link.bulkEndpoint, h.isConfigured, hflash, hopen, if_true]
  rfl

theorem Awaits.spi_eq (h : Awaits p waiting sent b) : p.hw.spi = b :=
  congrArg FlashSide.spi h.side_eq

/-- Another device that is live, and another SPI bus. -/
theorem Awaits.with (h : Awaits p waiting sent b) {d : Device} (hd : Live d) (b' : β) :
    Awaits ⟨d, { p.hw with spi := b' }⟩ waiting sent b' where
  live := hd
  side_eq := by
    have hout := congrArg FlashSide.out h.side_eq
    have hinto := congrArg FlashSide.into h.side_eq
    show FlashSide.mk (flashSide p.hw).out (flashSide p.hw).into b' = _
    rw [hout, hinto]

theorem Awaits.offers (h : Awaits p waiting sent b) : Offers p waiting :=
  ⟨h.live.lifecycle_eq, h.live.out_open, congrArg FlashSide.out h.side_eq⟩

/-! ## Receiving -/

/-- A packet for which there is room comes as it was sent. -/
theorem Awaits.readPacket (h : Awaits p (packet :: waiting) sent b) {room : Nat}
    (hroom : packet.length ≤ room) (hlength : packet.length ≤ maxPacket) :
    ∃ q, p.readPacket flashEndpoint room = (.ok packet, q) ∧ Awaits q waiting sent b := by
  obtain ⟨q, hread, hdevice, hside⟩ := h.offers.readPacket hlength room
  rw [List.take_of_length_le hroom] at hread
  refine ⟨q, hread, ?_, ?_⟩
  · rw [hdevice]
    exact h.live
  · rw [hside, h.side_eq]

/-- The data of a write comes whole, however it was cut. -/
theorem Awaits.gather {cuts : List (List UInt8)} {fuel : Nat}
    (h : Awaits p (cuts ++ waiting) sent b)
    (hcuts : ∀ packet ∈ cuts, packet ≠ [] ∧ packet.length ≤ maxPacket)
    (hfuel : cuts.flatten.length ≤ fuel) :
    ∃ q, p.gather flashEndpoint fuel cuts.flatten.length = (⟨cuts.flatten, .ok ()⟩, q) ∧
      Awaits q waiting sent b := by
  induction cuts generalizing p fuel with
  | nil =>
    refine ⟨p, ?_, h⟩
    cases fuel <;> rfl
  | cons packet cuts ih =>
    obtain ⟨hpacket, hlength⟩ := hcuts packet List.mem_cons_self
    have hpos : 0 < packet.length := List.length_pos_iff.mpr hpacket
    rw [List.flatten_cons, List.length_append] at hfuel ⊢
    obtain ⟨q, hread, hrest⟩ := h.readPacket
      (Nat.le_add_right packet.length cuts.flatten.length) hlength
    obtain ⟨fuel, rfl⟩ : ∃ n, fuel = n + 1 := ⟨fuel - 1, by omega⟩
    obtain ⟨q', hgather, hdone⟩ := ih hrest
      (fun packet hin => hcuts packet (List.mem_cons_of_mem _ hin))
      (show cuts.flatten.length ≤ fuel by omega)
    have hneed : packet.length + cuts.flatten.length ≠ 0 := by omega
    have hsome : packet.isEmpty = false := by
      cases packet with
      | nil => exact absurd rfl hpacket
      | cons b bs => rfl
    refine ⟨q', ?_, hdone⟩
    simp only [Link.gather, if_neg hneed, hread, hsome, Nat.add_sub_cancel_left, hgather]
    rfl

/-- A buffer of its length is filled with the data. -/
theorem Awaits.fill {cuts : List (List UInt8)} {buffer : List UInt8}
    (h : Awaits p (cuts ++ waiting) sent b)
    (hcuts : ∀ packet ∈ cuts, packet ≠ [] ∧ packet.length ≤ maxPacket)
    (hlength : cuts.flatten.length = buffer.length) :
    ∃ q, p.fill flashEndpoint buffer = (.ok (), cuts.flatten, q) ∧ Awaits q waiting sent b := by
  obtain ⟨q, hgather, hdone⟩ := h.gather hcuts (Nat.le_of_eq hlength)
  rw [hlength] at hgather
  refine ⟨q, ?_, hdone⟩
  simp only [Link.fill, hgather, List.drop_eq_nil_of_le (Nat.le_of_eq hlength.symm),
    List.append_nil]

/-! ## Sending -/

/-- The controller is always ready for the next packet. -/
theorem awaitCollected_flash (spins : Nat) (p : Link (Fifos β ρ)) :
    p.awaitCollected .flash spins = (true, p) := by
  cases spins <;> rfl

theorem Awaits.sendPackets (h : Awaits p waiting sent b) (packets : List (List UInt8)) :
    ∃ q, p.sendPackets flashEndpoint .flash packets = (.ok (), q) ∧
      Awaits q waiting (sent.append packets) b := by
  induction packets generalizing p sent with
  | nil => exact ⟨p, rfl, h⟩
  | cons packet packets ih =>
    have hnext : Awaits ({ p with hw := writeFifo .flash packet p.hw }.tell (.txReady .flash false))
        waiting (sent.push packet) b := by
      refine ⟨h.live, ?_⟩
      show flashSide (tell (.txReady .flash false) (writeFifo .flash packet p.hw)) = _
      rw [txReady_flash, writeFifo_flash, h.side_eq]
      rfl
    obtain ⟨q, hsent, hdone⟩ := ih hnext
    refine ⟨q, ?_, ?_⟩
    · simp only [Link.sendPackets, awaitCollected_flash]
      exact hsent
    · have happend : (sent.push packet).append packets = sent.append (packet :: packets) := by
        simp [Record.push, Record.append]
      rwa [happend] at hdone

/-- What is written leaves in packets. -/
theorem Awaits.write (h : Awaits p waiting sent b) (data : List UInt8) :
    ∃ q, p.write flashEndpoint data = (.ok (), q) ∧
      Awaits q waiting (sent.append (packets data)) b := by
  obtain ⟨q, hsent, hdone⟩ := h.sendPackets (packets data)
  refine ⟨q, ?_, hdone⟩
  simp only [Link.write, h.live.bulkEndpoint]
  exact hsent

/-! ## The host's turn -/

/-- A packet for the flash endpoint has come. -/
def flashWork : Work := ⟨flashEndpoint, .toDevice⟩

theorem Awaits.deliver (h : Awaits p waiting sent b) (packets : List (List UInt8)) :
    Awaits (packets.foldl (fun p packet => deliver .flash packet p) p) (waiting ++ packets) sent
      b := by
  induction packets generalizing p waiting with
  | nil => rwa [List.append_nil]
  | cons packet packets ih =>
    have hnext : Awaits (Bench.deliver .flash packet p) (waiting ++ [packet]) sent b := by
      refine ⟨h.live, ?_⟩
      have hout := congrArg FlashSide.out h.side_eq
      have hinto := congrArg FlashSide.into h.side_eq
      have hqueued := PerEndpoint.get_set_self p.hw.usb.out .flash
        ((flashSide p.hw).out.queue packet)
      show FlashSide.mk ((p.hw.usb.out.set .flash ((flashSide p.hw).out.queue packet)).get .flash)
        (flashSide p.hw).into p.hw.spi = _
      rw [hqueued, hout, hinto, h.spi_eq, OutFifo.queue, List.map_append]
      rfl
    have hrest := ih hnext
    rwa [List.append_assoc] at hrest

/-- The interrupt of a packet queues it for the main loop. -/
theorem Live.fire_rx (h : Live p.device) :
    fire { rx := 2 } p =
      Link.note ⟨p.device, { p.hw with usb.pending := {} }⟩ flashWork := by
  have hreached : (Link.mk p.device (Driven.raise { rx := 2 } p.hw)).reached? =
      some ({ rx := 2 }, ⟨p.device, { p.hw with usb.pending := {} }⟩) := by
    have hlive : ¬p.device.lifecycle < .waiting := by
      rw [h.lifecycle_eq]
      decide
    have hpower : (Link.mk p.device { p.hw with usb.pending := {} }).powerUp =
        ⟨p.device, { p.hw with usb.pending := {} }⟩ := by
      simp only [Link.powerUp, h.lifecycle_eq]
      rfl
    have hroused : (Link.mk p.device (Driven.raise { rx := 2 } p.hw)).roused =
        ({ rx := 2 }, ⟨p.device, { p.hw with usb.pending := {} }⟩) :=
      congrArg (Prod.mk _) hpower
    simp only [Link.reached?, hroused, h.awake]
    rw [if_neg (by decide)]
    exact if_neg hlive
  have hwork : Link.bulkWork { rx := 2 } = [flashWork] := by decide
  have hzero : InterruptStatus.pending { rx := 2 } 0 = false := by decide
  rw [fire, Link.onInterrupt_of_reached hreached, hwork, Link.serviceEndpointZero, hzero]
  rfl

/-- Work that is taken as soon as it was queued. -/
theorem Awaits.note_take (h : Awaits p waiting sent b) (work : Work) :
    (p.note work).device.queue.length = 1 ∧
      ∃ q, (p.note work).takeWork = (some work, q) ∧ Awaits q waiting sent b := by
  have hlist : (p.note work).device.queue.toList = [work] := by
    show (p.device.queue.push work).2.toList = _
    simp [WorkQueue.toList_push, h.live.idle]
  obtain ⟨hwork, hrest⟩ := WorkQueue.toList_pop (p.note work).device.queue
  rw [hlist] at hwork hrest
  refine ⟨by rw [← WorkQueue.length_toList, hlist]; rfl, _, Prod.ext hwork rfl, ?_, h.side_eq⟩
  exact ⟨h.live.lifecycle_eq, h.live.awake, h.live.out_open, h.live.in_open, hrest⟩

open Programmer Protocol in
/-- A request goes out with packets behind it, and all that the main loop does is to serve it. -/
theorem Awaits.exchange [Spi.Bus β] [ResetLine ρ] {s : Programmer} (h : Awaits p [] sent b)
    (r : Request) (behind : List (List UInt8)) :
    ∃ q, Awaits q behind sent b ∧ ∀ y : Station (Fifos β ρ), serve r (s, q) = y →
      (∃ sent' b', Awaits y.2 [] sent' b') → Bench.exchange (r.encode :: behind) (s, p) = y := by
  have hqueued := h.deliver (r.encode :: behind)
  rw [List.nil_append] at hqueued
  generalize hdelivered : (r.encode :: behind).foldl (fun p packet => Bench.deliver .flash packet p)
    p = delivered at hqueued
  -- The interrupt is cleared and the packet is noted as work.
  have hcleared : Awaits ⟨delivered.device, { delivered.hw with usb.pending := {} }⟩
      (r.encode :: behind) sent b := ⟨hqueued.live, hqueued.side_eq⟩
  have hfired := hqueued.live.fire_rx
  have hconfigured : (fire { rx := 2 } delivered).device.isConfigured = true := by
    rw [hfired]
    exact hcleared.live.isConfigured
  obtain ⟨hone, q₁, htaken, hawaits⟩ := hcleared.note_take flashWork
  rw [← hfired] at hone htaken
  -- The main loop takes the work and reads the request.
  have hlength : r.encode.length ≤ maxPacket := by
    rw [Request.length_encode]
    cases r.opcode <;> decide
  obtain ⟨q, hread, hbehind⟩ := hawaits.readPacket hlength hlength
  refine ⟨q, hbehind, fun y hserve hdone => ?_⟩
  have hdecode : Request.decode r.encode = .ok r := by
    simpa using Request.decode_encode r []
  have hserviced : service (s, q₁) = y := by
    simp only [service, hawaits.offers.rxPending, List.isEmpty_cons, Bool.not_false, hread, hdecode,
      hserve]
  have hdrained : drain 1 (s, fire { rx := 2 } delivered) = y := by
    rw [drain]
    simp only [htaken]
    rw [if_pos (by rfl), hserviced]
    rfl
  obtain ⟨_, _, hend⟩ := hdone
  have hnone := hend.offers.rxPending
  rw [Bench.exchange, hdelivered, poll, if_pos hconfigured, hone, hdrained]
  simp only [hnone, List.isEmpty_nil, Bool.not_true]

end FlashProgrammer.Bench
