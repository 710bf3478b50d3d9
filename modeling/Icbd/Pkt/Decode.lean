/-
# Icbd.Pkt.Decode — one frame, read in any chunking.

`pktsocket_read` is called until it has a packet or gives the connection up. The length byte is
checked against `MAX_PKT_LEN` less one, so that a NUL fits behind the packet: a frame with 255 bytes of
contents, which the length byte allows, is taken for oversized.
-/
import Icbd.Pkt.Inbound

namespace Icbd.Pkt

/-! ## §1 — reading on -/

/-- `pktsocket_read` is called up to `k` times, until a packet is complete or the connection lost. -/
def readOn : Nat → Conn → Conn
  | 0, c => c
  | k + 1, c =>
      if c.cbuf.state = .completePacket ∨ c.cbuf.state = .wantDisconnect then c
      else readOn k (pktsocketRead c).2

/-- A plaintext connection that expects a packet, with the given bytes and outcomes of `read` before
it. -/
def expecting (fd : Nat) (inbound : Bytes) (reads : List ReadResult) : Conn :=
  { cbuf := { Cbuf.fresh fd false with state := .wantHeader }
    wire := { inbound := inbound, reads := reads } }

/-- Does `read` hand over something? -/
def ReadResult.isData : ReadResult → Bool
  | .data _ => true
  | _ => false

/-- **The frame is read back.** In any chunking, and however often `read` would block in between, as many
calls of `read` with data as the frame has bytes are enough, and what the connection then holds is the
frame. -/
def Decodes (frame : Bytes) : Prop :=
  ∀ fd reads, (∀ r ∈ reads, r.quiet = true) → frame.length ≤ reads.countP ReadResult.isData →
    let c := readOn reads.length (expecting fd frame reads)
    c.cbuf.state = .completePacket ∧ (c.cbuf.rbuf.getD {}).data = frame ∧ c.wire.inbound = []

/-! ## §2 — progress -/

/-- The reads that will hand something over are enough for the bytes that are left. -/
def Wire.Enough (w : Wire) : Prop := w.inbound.length ≤ w.reads.countP ReadResult.isData

theorem Wire.read_reads (w : Wire) (n : Nat) : (w.read n).2.reads = w.reads.tail := by
  unfold Wire.read
  split <;> (try split) <;> simp_all

theorem Wire.read_enough {w : Wire} {n : Nat} (hn : 1 ≤ n) (h : w.Enough) : (w.read n).2.Enough := by
  unfold Wire.read Wire.Enough at *
  split
  · exact h
  · next hr => simpa [hr, ReadResult.isData] using h
  · next hr => simpa [hr, ReadResult.isData] using h
  · next hr => simpa [hr, ReadResult.isData] using h
  · next k rs hr =>
    split
    · next hnil => simp [hnil]
    · next hne =>
      have hpos : 0 < w.inbound.length := List.length_pos_iff.mpr hne
      simp only [hr, List.countP_cons, ReadResult.isData, ↓reduceIte] at h
      simp only [List.length_drop]
      omega

theorem Wire.read_head {w : Wire} {h : UInt8} {t : Bytes} (hb : (w.read packetHeaderLen).1 = .bytes (h :: t)) :
    w.inbound.head? = some h := by
  unfold Wire.read at hb
  split at hb
  · cases hb
  · cases hb
  · cases hb
  · cases hb
  · split at hb
    · cases hb
    · next k rs _ _ =>
      have htake : w.inbound.take (min packetHeaderLen (k + 1)) = h :: t := ReadOut.bytes.inj hb
      have hone : min packetHeaderLen (k + 1) = 1 := by simp [packetHeaderLen]
      rw [hone] at htake
      cases hin : w.inbound with
      | nil => simp [hin] at htake
      | cons x xs =>
        rw [hin] at htake
        simp only [List.take_succ_cons, List.cons.injEq] at htake
        simp [htake.1]

section
variable {c : Conn} (hssl : c.cbuf.isSsl = false)
include hssl

theorem readBody_wire : (readBody c).2.wire =
    (c.wire.read ((c.cbuf.rbuf.getD {}).len - (c.cbuf.rbuf.getD {}).pos)).2 := by
  rcases hread : c.wire.read ((c.cbuf.rbuf.getD {}).len - (c.cbuf.rbuf.getD {}).pos) with ⟨out, w⟩
  simp only [readBody, sockRead_plain hssl, hread]
  cases out with
  | wouldBlock | error => rfl
  | bytes b =>
    dsimp only
    split
    · split <;> rfl
    · split <;> rfl

/-- One read for the header, and if there is one another for the body it announces. -/
theorem pktsocketRead_wire (hs : c.cbuf.state = .wantHeader) :
    (pktsocketRead c).2.wire = (c.wire.read packetHeaderLen).2 ∨
      ∃ h, c.wire.inbound.head? = some h ∧
        (pktsocketRead c).2.wire = ((c.wire.read packetHeaderLen).2.read h.toNat).2 := by
  rcases hread : c.wire.read packetHeaderLen with ⟨out, w⟩
  have hhead : sockRead (c.setRbuf {}) packetHeaderLen = (out, { c.setRbuf {} with wire := w }) := by
    rw [sockRead_plain (c := c.setRbuf {}) hssl]
    show ((c.wire.read packetHeaderLen).1, _) = _
    rw [hread]
    simp only [Conn.setRbuf, hread]
  simp only [pktsocketRead, if_pos hs, readHeader, hhead]
  cases out with
  | wouldBlock | error => exact .inl rfl
  | bytes b =>
    cases b with
    | nil =>
      have hplain : (c.setRbuf {}).cbuf.isSsl = false := hssl
      simp only [hplain, Bool.false_eq_true, ↓reduceIte]
      exact .inl rfl
    | cons h t =>
      have hin : c.wire.inbound.head? = some h := Wire.read_head (t := t) (by rw [hread])
      dsimp only
      split
      · next hbig =>
        left
        split at hbig
        · cases hbig
          rfl
        · cases hbig
      · next hfits =>
        refine .inr ⟨h, hin, ?_⟩
        split at hfits
        · cases hfits
        · cases hfits
          rw [readBody_wire (by exact hssl)]
          rfl

end

/-! ## §3 — the frame -/

/-- In the middle of reading the frame `f`, or about to begin. -/
def Awaiting (c : Conn) (f : Frame) : Prop :=
  c.cbuf.state = .wantHeader ∧ c.wire.inbound = stream [f] ∨
    c.cbuf.state = .wantRead ∧ ∃ n, Holding c f [] n

/-- **One call.** Either the frame is there, or it is still awaited and a read has been used up. -/
theorem pktsocketRead_awaiting {c : Conn} {f : Frame} (hssl : c.cbuf.isSsl = false)
    (hq : ∀ r ∈ c.wire.reads, r.quiet = true) (h : Awaiting c f) :
    ReadKeeps c (pktsocketRead c).2 ∧ (Awaiting (pktsocketRead c).2 f ∨
      (pktsocketRead c).2.cbuf.state = .completePacket ∧
        ((pktsocketRead c).2.cbuf.rbuf.getD {}).data = f.encode ∧
        (pktsocketRead c).2.wire.inbound = []) := by
  rcases h with ⟨hs, hin⟩ | ⟨hs, n, hhold⟩
  · obtain ⟨hk, ⟨hs', hin'⟩ | ⟨f', fs, hcons, ⟨hs', hbody⟩ | ⟨hs', hdata, hin'⟩⟩⟩ :=
      pktsocketRead_header hs hssl hq hin
    · exact ⟨hk, .inl (.inl ⟨hs', hin'⟩)⟩
    · cases hcons
      exact ⟨hk, .inl (.inr ⟨hs', hbody⟩)⟩
    · cases hcons
      exact ⟨hk, .inr ⟨hs', hdata, hin'⟩⟩
  · have hread : pktsocketRead c = readBody c := by
      rw [pktsocketRead, if_neg (by rw [hs]; decide)]
    obtain ⟨hk, ⟨hs', hbody⟩ | ⟨hs', hdata, hin'⟩⟩ := readBody_holding hssl hq hhold
    · rw [hread]
      exact ⟨hk, .inl (.inr ⟨hs', hbody⟩)⟩
    · rw [hread]
      exact ⟨hk, .inr ⟨hs', hdata, hin'⟩⟩

theorem pktsocketRead_enough {c : Conn} {f : Frame} (hssl : c.cbuf.isSsl = false) (h : Awaiting c f)
    (he : c.wire.Enough) : (pktsocketRead c).2.wire.Enough ∧
      (pktsocketRead c).2.wire.reads.length ≤ c.wire.reads.length - 1 := by
  rcases h with ⟨hs, hin⟩ | ⟨hs, n, hhold⟩
  · have hone : (c.wire.read packetHeaderLen).2.Enough := Wire.read_enough (Nat.le_refl 1) he
    rcases pktsocketRead_wire hssl hs with hw | ⟨h, hh, hw⟩
    · rw [hw, Wire.read_reads, List.length_tail]
      exact ⟨hone, Nat.le_refl _⟩
    · have hlen : h.toNat = f.body.length := by
        rw [hin] at hh
        cases hh
        exact f.header_toNat
      rw [hw, Wire.read_reads, Wire.read_reads, List.length_tail, List.length_tail]
      exact ⟨Wire.read_enough (by rw [hlen]; exact f.nonempty) hone, Nat.sub_le _ _⟩
  · have hread : pktsocketRead c = readBody c := by
      rw [pktsocketRead, if_neg (by rw [hs]; decide)]
    rw [hread, readBody_wire hssl, Wire.read_reads, List.length_tail]
    refine ⟨Wire.read_enough ?_ he, Nat.le_refl _⟩
    have := hhold.part
    simp only [hhold.rbuf, Option.getD_some]
    omega

/-- With reads enough, as many calls as there are reads bring the frame in. -/
theorem readOn_complete {c : Conn} {f : Frame} {k : Nat} (hssl : c.cbuf.isSsl = false)
    (hq : ∀ r ∈ c.wire.reads, r.quiet = true) (h : Awaiting c f) (he : c.wire.Enough)
    (hk : c.wire.reads.length ≤ k) :
    (readOn k c).cbuf.state = .completePacket ∧
      ((readOn k c).cbuf.rbuf.getD {}).data = f.encode ∧ (readOn k c).wire.inbound = [] := by
  induction k generalizing c with
  | zero =>
    -- without reads there would have to be nothing left
    have hnil : c.wire.reads = [] := List.length_eq_zero_iff.mp (Nat.le_zero.mp hk)
    have hlen : c.wire.inbound.length ≤ 0 := by
      have := he
      rwa [Wire.Enough, hnil] at this
    have hin : c.wire.inbound = [] := List.length_eq_zero_iff.mp (Nat.le_zero.mp hlen)
    rcases h with ⟨-, hs⟩ | ⟨-, n, hhold⟩
    · rw [hin] at hs
      simp [Frame.encode] at hs
    · have hpart := hhold.part
      have hdrop := hhold.inbound
      rw [hin] at hdrop
      have hlen := congrArg List.length hdrop
      rw [List.length_append, List.length_drop, List.length_nil] at hlen
      omega
  | succ k ih =>
    have hstate : ¬ (c.cbuf.state = .completePacket ∨ c.cbuf.state = .wantDisconnect) := by
      rcases h with ⟨hs, -⟩ | ⟨hs, -⟩ <;> rw [hs] <;> decide
    have hon : readOn (k + 1) c = readOn k (pktsocketRead c).2 := by rw [readOn, if_neg hstate]
    obtain ⟨hkeep, hnext⟩ := pktsocketRead_awaiting hssl hq h
    obtain ⟨henough, hused⟩ := pktsocketRead_enough hssl h he
    rw [hon]
    rcases hnext with hwait | ⟨hs, hdata, hin⟩
    · refine ih (hkeep.isSsl.trans hssl) (fun r hr => hq r (hkeep.reads.subset hr)) hwait henough ?_
      omega
    · have hstop : readOn k (pktsocketRead c).2 = (pktsocketRead c).2 := by
        cases k with
        | zero => rfl
        | succ k => rw [readOn, if_pos (.inl hs)]
      rw [hstop]
      exact ⟨hs, hdata, hin⟩

/-- **A frame of up to 254 bytes is read back.** -/
theorem Frame.decodes (f : Frame) : Decodes f.encode := by
  intro fd reads hq hlen
  have hstart : Awaiting (expecting fd f.encode reads) f := .inl ⟨rfl, by simp [expecting, stream]⟩
  exact readOn_complete (f := f) rfl hq hstart hlen (Nat.le_refl _)

/-- **A frame of 255 bytes is not**: its length byte alone costs the connection. -/
theorem not_decodes_of_oversized {body : Bytes} (h : body.length = 255) :
    ¬ Decodes (UInt8.ofNat body.length :: body) := by
  intro hd
  set frame : Bytes := UInt8.ofNat body.length :: body with hframe
  have hlen : frame.length = 256 := by rw [hframe, List.length_cons, h]
  obtain ⟨hs, -⟩ := hd 0 (List.replicate 256 (.data 0))
    (fun r hr => by rw [List.eq_of_mem_replicate hr]; rfl)
    (by rw [hlen, List.countP_replicate]; exact Nat.le_refl 256)
  have hlost : (pktsocketRead (expecting 0 frame (List.replicate 256 (.data 0)))).2.cbuf.state =
      .wantDisconnect := by
    rw [hframe, h]
    rfl
  have hstop : readOn 256 (expecting 0 frame (List.replicate 256 (.data 0))) =
      (pktsocketRead (expecting 0 frame (List.replicate 256 (.data 0)))).2 := by
    have hbegin : ¬ ((expecting 0 frame (List.replicate 256 (.data 0))).cbuf.state = .completePacket ∨
        (expecting 0 frame (List.replicate 256 (.data 0))).cbuf.state = .wantDisconnect) := by
      show ¬ (SocketState.wantHeader = .completePacket ∨ SocketState.wantHeader = .wantDisconnect)
      decide
    rw [readOn, if_neg hbegin, readOn, if_pos (.inr hlost)]
  rw [List.length_replicate, hstop, hlost] at hs
  cases hs

end Icbd.Pkt
