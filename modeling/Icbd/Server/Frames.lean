/-
# Icbd.Server.Frames — every packet of every run can be told from the next.

A send function leaves its text in `packetbuffer` through `snprintf`, so whatever the text, at most 255 bytes
stand behind the length byte. `Packs` says of a callback that it hands the packet layer nothing else, and
`packets_framed` says it of every run. The length byte then tells a client where each packet ends, however the
stream is cut.
-/
import Icbd.Lib.Framing
import Icbd.Server.Drop
import Icbd.Server.Wire

-- every bind doubles the size of the search's argument
set_option synthInstance.maxSize 1000000000000000000000000000000000000000000000000
set_option synthInstance.maxHeartbeats 200000

namespace Icbd.Server

open Icbd.Lib

/-! ## §1 — blocks -/

/-- What can stand behind a length byte. -/
structure Block where
  body : Bytes
  fits : body.length ≤ 255

/-- The length byte and the bytes it counts. -/
def Block.encode (b : Block) : Bytes := UInt8.ofNat b.body.length :: b.body

theorem take_length_le (len : UInt8) (s : Bytes) : (s.take len.toNat).length ≤ 255 :=
  (List.length_take_le _ _).trans (Nat.le_of_lt_succ len.toNat_lt)

/-- The block at the front of a stream, once all of it is there. -/
def takeBlock : Bytes → Option (Block × Bytes)
  | [] => none
  | len :: s =>
      if len.toNat ≤ s.length then some (⟨s.take len.toNat, take_length_le len s⟩, s.drop len.toNat) else none

theorem Block.length_toNat (b : Block) : (UInt8.ofNat b.body.length).toNat = b.body.length := by
  have := b.fits
  rw [UInt8.toNat_ofNat']
  omega

theorem takeBlock_encode (b : Block) (s : Bytes) : takeBlock (b.encode ++ s) = some (b, s) := by
  have hlen := b.length_toNat
  have hle : (UInt8.ofNat b.body.length).toNat ≤ (b.1 ++ s).length := by
    rw [hlen, List.length_append]
    omega
  rw [Block.encode, List.cons_append, takeBlock, if_pos hle]
  simp only [hlen, List.take_left', List.drop_left']

theorem takeBlock_part (b : Block) (s : Bytes) (hs : s <+: b.encode) (hne : s ≠ b.encode) : takeBlock s = none := by
  cases s with
  | nil => rfl
  | cons len s =>
    obtain ⟨t, ht⟩ := hs
    obtain ⟨rfl, hb⟩ : len = UInt8.ofNat b.body.length ∧ s ++ t = b.body := List.cons.inj ht
    have ht : t ≠ [] := by
      rintro rfl
      rw [List.append_nil] at hb
      exact hne (by rw [hb, Block.encode])
    have hpos := List.length_pos_iff.mpr ht
    have hlen := congrArg List.length hb
    rw [List.length_append] at hlen
    exact if_neg (by rw [b.length_toNat]; omega)

/-- The packets on the wire. -/
def blocks : Framing Block UInt8 where
  encode := Block.encode
  next := takeBlock
  nonempty _ := List.cons_ne_nil _ _
  next_whole := takeBlock_encode
  next_part := takeBlock_part

/-! ## §2 — what a callback hands over -/

/-- The contents `snprintf` leaves in `packetbuffer`. -/
def Packed (c : Bytes) : Prop := ∃ type text, c = packet type text

/-- Between the two worlds nothing but such contents was handed to the packet layer. -/
def Packs (w w' : World) : Prop := ∃ new, w'.out = new ++ w.out ∧ ∀ n c, .send n c ∈ new → Packed c

section
variable [Env] {w w' : World} {n : Int}

omit [Env] in
theorem Packed.length_le {c : Bytes} (h : Packed c) : (c ++ [0]).length ≤ 255 := by
  obtain ⟨type, text, rfl⟩ := h
  rw [List.length_append, packet_length]
  simp only [List.length_cons, List.length_nil]
  omega

omit [Env] in
theorem Packs.same (h : w'.out = w.out) : Packs w w' := ⟨[], h, fun _ _ hc => absurd hc List.not_mem_nil⟩

omit [Env] in
theorem Packs.sent {c : Bytes} (h : Packed c) : Packs w { w with out := .send n c :: w.out } := by
  refine ⟨[.send n c], rfl, fun m c' hc => ?_⟩
  cases List.mem_singleton.mp hc
  exact h

instance : Base Packs where
  refl _ := .same rfl
  trans _ _ _ h₁ h₂ := by
    obtain ⟨new₁, h₁, hn₁⟩ := h₁
    obtain ⟨new₂, h₂, hn₂⟩ := h₂
    refine ⟨new₂ ++ new₁, by rw [h₂, h₁, List.append_assoc], fun n c hc => ?_⟩
    exact (List.mem_append.mp hc).elim (hn₂ n c) (hn₁ n c)
  misc _ _ := .same rfl

instance : Drops Packs where
  drops w n := ⟨[.disconnect n], rfl, fun _ _ hc => by simp at hc⟩

instance : PlainTo Packs n := ⟨fun _ _ hc => .sent hc.packed⟩
instance : OpensTo Packs n := ⟨fun _ text => .sent ⟨pktOpen, text, rfl⟩⟩
instance : UOpts Packs n := ⟨fun _ _ => .same rfl⟩
instance : GOpts Packs := ⟨fun _ _ _ => .same rfl⟩

instance : Callbacks Packs where
  toPlain _ := inferInstance
  toUNeat _ := inferInstance
  drops := Drops.drops
  gname _ _ _ := .same rfl
  miss _ _ _ _ := .same rfl
  toOpens _ := inferInstance
  toDb _ := ⟨fun _ _ _ => .same rfl⟩
  toNick _ _ := ⟨fun _ => .same rfl⟩
  toReal _ _ := ⟨fun _ => .same rfl⟩
  toIdent _ := ⟨fun _ _ _ _ => .same rfl⟩
  toUGroup _ := ⟨fun _ _ => .same rfl⟩
  toLogin _ _ := ⟨fun _ => .same rfl⟩
  toMod _ := ⟨fun _ _ => .same rfl⟩

/-- Every callback hands over packets. -/
theorem Host.packs (h : Host) (sys : Sys) (e : Event) : Packs h.w (h.after sys e).w :=
  (inferInstance : Within (OnWorld Packs) e.prog).within (h.toDaemon.at sys)

/-- What start-up and every callback after it hand over. -/
theorem Reachable.packed {P : Host → Sys → Event → Prop} {h : Host} (hr : Reachable P h) {c : Bytes}
    (hc : .send n c ∈ h.w.out) : Packed c := by
  induction hr with
  | start sys db =>
    have hstart : Packs { db := db, sys := sys, stats := { startTime := sys.now } } (startup sys db) :=
      Within.within _
    obtain ⟨new, hout, hnew⟩ := hstart
    rw [hout, List.append_nil] at hc
    exact hnew n c hc
  | @step h _ sys e _ _ hstep _ ih =>
    obtain ⟨new, hout, hnew⟩ := h.packs sys e
    rw [hstep.after, hout] at hc
    exact (List.mem_append.mp hc).elim (hnew n c) ih

/-! ## §3 — the client's side -/

omit [Env] in
/-- Packets are blocks. -/
theorem exists_blocks {cs : List Bytes} (h : ∀ c ∈ cs, Packed c) : ∃ bs : List Block,
    bs.map Block.encode = cs.map packetbuffer ∧ bs.map Block.body = cs.map (· ++ [0]) := by
  induction cs with
  | nil => exact ⟨[], rfl, rfl⟩
  | cons c cs ih =>
    obtain ⟨bs, henc, hbody⟩ := ih fun c hc => h c (List.mem_cons_of_mem _ hc)
    refine ⟨⟨c ++ [0], (h c List.mem_cons_self).length_le⟩ :: bs, ?_, ?_⟩
    · rw [List.map_cons, List.map_cons, henc, packetbuffer_eq]
      rfl
    · rw [List.map_cons, List.map_cons, hbody]

omit [Env] in
/-- A part of a stream of packets, read by the length bytes. -/
theorem read_packets {cs : List Bytes} (h : ∀ c ∈ cs, Packed c) {s : Bytes}
    (hs : s <+: (cs.map packetbuffer).flatten) : ∃ k ≤ cs.length,
    (blocks.read s).1.map Block.body = (cs.take k).map (· ++ [0]) ∧
      s = ((cs.take k).map packetbuffer).flatten ++ (blocks.read s).2 ∧
      ((blocks.read s).2 = [] ∨ ∃ c, cs[k]? = some c ∧ (blocks.read s).2 <+: packetbuffer c ∧
        (blocks.read s).2 ≠ packetbuffer c) := by
  obtain ⟨bs, henc, hbody⟩ := exists_blocks h
  have hwrite (bs : List Block) : blocks.write bs = (bs.map Block.encode).flatten := List.flatMap_def
  have hs : s <+: blocks.write bs := by rw [hwrite, henc]; exact hs
  obtain ⟨hpre, hsplit, hrest⟩ := blocks.read_prefix hs
  obtain ⟨k, hk⟩ : ∃ k, k = (blocks.read s).1.length := ⟨_, rfl⟩
  have htake : (blocks.read s).1 = bs.take k := by rw [hk]; exact List.prefix_iff_eq_take.mp hpre
  have hlen : bs.length = cs.length := by simpa using congrArg List.length hbody
  refine ⟨k, by rw [hk, ← hlen]; exact hpre.length_le, ?_, ?_, hrest.imp_right ?_⟩
  · rw [htake, List.map_take, hbody, List.map_take]
  · rw [List.map_take, ← henc, ← List.map_take, ← htake, ← hwrite]
    exact hsplit
  · rintro ⟨b, hb, hpart, hne⟩
    rw [← hk] at hb
    have hget : (cs.map packetbuffer)[k]? = some b.encode := by
      rw [← henc, List.getElem?_map, hb]
      rfl
    rw [List.getElem?_map] at hget
    obtain ⟨c, hc, heq⟩ := Option.map_eq_some_iff.mp hget
    exact ⟨c, hc, by rw [heq]; exact hpart, by rw [heq]; exact hne⟩

/-- The packets handed over for slot `n`, in the order of the calls. -/
def sentTo (n : Int) (out : List Out) : List Bytes :=
  out.reverse.filterMap fun
    | .send m c => if m = n then some c else none
    | .disconnect _ => none

/-- **Every packet of every run can be told from the next.** Whatever part of the stream of a connection has
arrived, reading by the length bytes gives the packets the server sent it, the first of them, each one whole
and in order; what is left over is the beginning of the next one. -/
theorem packets_framed {P : Host → Sys → Event → Prop} {h : Host} (hr : Reachable P h) (n : Int) {s : Bytes}
    (hs : s <+: ((sentTo n h.w.out).map packetbuffer).flatten) : ∃ k ≤ (sentTo n h.w.out).length,
    (blocks.read s).1.map Block.body = ((sentTo n h.w.out).take k).map (· ++ [0]) ∧
      s = (((sentTo n h.w.out).take k).map packetbuffer).flatten ++ (blocks.read s).2 ∧
      ((blocks.read s).2 = [] ∨ ∃ c, (sentTo n h.w.out)[k]? = some c ∧ (blocks.read s).2 <+: packetbuffer c ∧
        (blocks.read s).2 ≠ packetbuffer c) := by
  refine read_packets (fun c hc => ?_) hs
  obtain ⟨o, ho, heq⟩ := List.mem_filterMap.mp hc
  cases o with
  | disconnect => cases heq
  | send m c' =>
    simp only [Option.ite_none_right_eq_some, Option.some.injEq] at heq
    obtain ⟨rfl, rfl⟩ := heq
    exact hr.packed (List.mem_reverse.mp ho)

end

section
attribute [local instance] smallEnv

/-- The first forty bytes of what a client is sent when he logs in. -/
theorem packets_framed_login : ∃ k ≤ (sentTo 1 (loggedIn "al" "1").w.out).length,
    (blocks.read (((sentTo 1 (loggedIn "al" "1").w.out).map packetbuffer).flatten.take 40)).1.map Block.body =
      ((sentTo 1 (loggedIn "al" "1").w.out).take k).map (· ++ [0]) := by
  have hrun : Host.follows (fun _ _ _ => True) {} { w := startup {} fun _ => none }
      [.connect 1 false none, .packet 1 (loginPkt "one" "al" "1" "")] := by decide +kernel
  have hr : Reachable (fun _ _ _ => True) (loggedIn "al" "1") :=
    (Reachable.start {} fun _ => none).run hrun
  obtain ⟨k, hk, hread, -⟩ := packets_framed hr 1 (List.take_prefix 40 _)
  exact ⟨k, hk, hread⟩

end

end Icbd.Server
