import FlashProgrammer.Usb.Bulk

/-!
# Bytes cut into packets

`packets` cuts bytes into full packets and one that may be shorter.  It is read here by its
first packet: `packets_cons` is the step, and the other lemmas follow by induction on the
bytes that are left.
-/

namespace FlashProgrammer.Usb

/-- More fuel than bytes changes nothing. -/
theorem cut_of_le {α : Type} {size : Nat} (hsize : 0 < size) {fuel fuel' : Nat} {xs : List α}
    (h : xs.length ≤ fuel) (h' : xs.length ≤ fuel') : cut size fuel xs = cut size fuel' xs := by
  induction fuel generalizing fuel' xs with
  | zero =>
    have hnil : xs = [] := List.eq_nil_of_length_eq_zero (Nat.le_zero.mp h)
    subst hnil
    cases fuel' <;> rfl
  | succ fuel ih =>
    cases fuel' with
    | zero =>
      have hnil : xs = [] := List.eq_nil_of_length_eq_zero (Nat.le_zero.mp h')
      subst hnil
      rfl
    | succ fuel' =>
      have hless : (xs.drop size).length ≤ fuel ∧ (xs.drop size).length ≤ fuel' := by
        rw [List.length_drop]
        omega
      rw [cut, cut, ih hless.1 hless.2]

@[simp] theorem packets_nil : packets [] = [] := rfl

/-- The first packet carries what fits, and the others the rest. -/
theorem packets_cons {data : List UInt8} (h : data ≠ []) :
    packets data = data.take maxPacket :: packets (data.drop maxPacket) := by
  have hpos : 0 < data.length := List.length_pos_iff.mpr h
  obtain ⟨fuel, hfuel⟩ : ∃ n, data.length = n + 1 := ⟨data.length - 1, by omega⟩
  have hsome : data.isEmpty = false := by simpa using h
  rw [packets, hfuel, cut, hsome, packets, if_neg (by decide)]
  have hrest : (data.drop maxPacket).length ≤ fuel := by
    rw [List.length_drop, maxPacket]
    omega
  rw [cut_of_le (by decide) hrest (Nat.le_refl _)]

/-- Bytes that fit in a packet take one. -/
theorem packets_of_fits {data : List UInt8} (hdata : data ≠ []) (hfits : data.length ≤ maxPacket) :
    packets data = [data] := by
  rw [packets_cons hdata, List.take_of_length_le hfits, List.drop_eq_nil_of_le hfits, packets_nil]

/-- What holds of no bytes and of bytes whose first packet is cut off holds of all bytes. -/
theorem packets_induction {P : List UInt8 → Prop} (nil : P [])
    (cons : ∀ data, data ≠ [] → P (data.drop maxPacket) → P data) (data : List UInt8) : P data := by
  induction hlength : data.length using Nat.strongRecOn generalizing data with
  | _ n ih =>
    by_cases hdata : data = []
    · rw [hdata]
      exact nil
    · have hpos : 0 < data.length := List.length_pos_iff.mpr hdata
      refine cons data hdata (ih _ ?_ _ rfl)
      rw [List.length_drop, maxPacket]
      omega

/-- No packet is longer than the longest. -/
theorem length_le_of_mem_packets {data packet : List UInt8} (h : packet ∈ packets data) :
    packet.length ≤ maxPacket := by
  induction data using packets_induction with
  | nil => cases h
  | cons data hdata ih =>
    rw [packets_cons hdata] at h
    rcases List.mem_cons.mp h with rfl | hrest
    · rw [List.length_take]
      exact Nat.min_le_left ..
    · exact ih hrest

/-- The packets carry the bytes in order. -/
theorem flatten_packets (data : List UInt8) : (packets data).flatten = data := by
  induction data using packets_induction with
  | nil => rfl
  | cons data hdata ih =>
    rw [packets_cons hdata, List.flatten_cons, ih, List.take_append_drop]

/-- No packet is empty. -/
theorem ne_nil_of_mem_packets {data packet : List UInt8} (h : packet ∈ packets data) :
    packet ≠ [] := by
  induction data using packets_induction with
  | nil => cases h
  | cons data hdata ih =>
    rw [packets_cons hdata] at h
    rcases List.mem_cons.mp h with rfl | hrest
    · simp [maxPacket, hdata]
    · exact ih hrest

/-- A packet is found at its place in the bytes. -/
theorem getElem?_packets (data : List UInt8) (i : Nat) :
    (packets data)[i]? =
      if i * maxPacket < data.length then some ((data.drop (i * maxPacket)).take maxPacket)
      else none := by
  induction data using packets_induction generalizing i with
  | nil => simp
  | cons data hdata ih =>
    have hpos : 0 < data.length := List.length_pos_iff.mpr hdata
    rw [packets_cons hdata]
    cases i with
    | zero => simp [hpos]
    | succ i =>
      have hplace : maxPacket + i * maxPacket = (i + 1) * maxPacket := by
        rw [Nat.succ_mul, Nat.add_comm]
      have hwithin : i * maxPacket < data.length - maxPacket ↔
          (i + 1) * maxPacket < data.length := by
        rw [← hplace]
        omega
      rw [List.getElem?_cons_succ, ih, List.length_drop, List.drop_drop, hplace]
      simp only [hwithin]

/-- As many packets are needed as there are times the longest packet, rounded up. -/
theorem length_packets (data : List UInt8) :
    (packets data).length = (data.length + (maxPacket - 1)) / maxPacket := by
  induction data using packets_induction with
  | nil => rfl
  | cons data hdata ih =>
    have hpos : 0 < data.length := List.length_pos_iff.mpr hdata
    rw [packets_cons hdata, List.length_cons, ih, List.length_drop, maxPacket]
    omega

end FlashProgrammer.Usb
