/-
# Icbd.Server.Wire — the frames the server sends.

`doSend` puts a length byte in front of what a send function has left in `packetbuffer` and hands it to
the packet layer together with the terminating NUL. The send functions filter their texts into buffers
whose sizes add up to the packet's, so nothing a client says can end a field or a frame early.

The server does not read its own longest frames back: see `Icbd.Pkt.Decode`.
-/
import Icbd.Sanitise
import Icbd.Pkt.Decode
import Icbd.Server.Nested

namespace Icbd.Server

open Icbd.Lib

/-! ## §1 — frames -/

/-- What `doSend` hands to `pktserv_send`: the length byte, the contents and a NUL. -/
def packetbuffer (content : Bytes) : Bytes := UInt8.ofNat (content.length + 1) :: (content ++ [0])

theorem packetbuffer_eq (content : Bytes) :
    packetbuffer content = UInt8.ofNat (content ++ [0]).length :: (content ++ [0]) := by
  rw [packetbuffer, List.length_append]
  rfl

theorem packet_length (type : UInt8) (text : Bytes) :
    (packet type text).length = min 254 (type :: text).length := by
  rw [packet, snprintf, List.length_take]
  rfl

/-- **The decoder takes what the encoder sends** exactly as long as the type byte and the text behind it
have at most 253 bytes, and the length byte is at most 254. -/
theorem packet_decodes_iff (type : UInt8) (text : Bytes) :
    Pkt.Decodes (packetbuffer (packet type text)) ↔ (type :: text).length ≤ 253 := by
  have hlen : (packet type text ++ [0]).length = min 254 (type :: text).length + 1 := by
    rw [List.length_append, packet_length]
    rfl
  rw [packetbuffer_eq]
  constructor
  · intro hd
    by_contra hlong
    exact Pkt.not_decodes_of_oversized (by omega) hd
  · intro hfits
    exact Pkt.Frame.decodes ⟨packet type text ++ [0], by omega, by omega⟩

section
attribute [local instance] smallEnv

/-- An error message of 253 characters goes out in a frame that the server itself would not take. -/
theorem longest_error_not_decoded : ∃ content,
    (senderror 1 (List.replicate 253 97) {}).2.out = [.send 1 content] ∧
      ¬ Pkt.Decodes (packetbuffer content) := by
  have hsent : (senderror 1 (List.replicate 253 97) {}).2.out =
      [.send 1 (pktError :: List.replicate 253 97)] := by decide +kernel
  refine ⟨_, hsent, ?_⟩
  rw [packetbuffer_eq]
  exact Pkt.not_decodes_of_oversized (by rw [List.length_append, List.length_cons, List.length_replicate]; rfl)

end

/-! ## §2 — tidy frames -/

/-- A frame of a type with the given fields: the length byte counts what is behind it, the last byte and
no other is a NUL, the text is the fields with a `^A` between any two, and no field has a control
character. -/
structure Tidy (frame : Bytes) (type : UInt8) (fields : List Bytes) : Prop where
  text : ∃ len text, frame = len :: type :: (text ++ [0]) ∧ len.toNat = text.length + 2 ∧
    text.splitOn 1 = fields
  type : 32 ≤ type.toNat
  fields : ∀ f ∈ fields, ∀ b ∈ f, 32 ≤ b.toNat

/-- Fields that fit the packet make a tidy frame: nothing is cut off. -/
theorem tidy_packet {type : UInt8} {fields : List Bytes} (htype : 32 ≤ type.toNat) (hne : fields ≠ [])
    (hfields : ∀ f ∈ fields, ∀ b ∈ f, 32 ≤ b.toNat) (hlen : (sep.intercalate fields).length ≤ 253) :
    Tidy (packetbuffer (packet type (sep.intercalate fields))) type fields := by
  have hall : packet type (sep.intercalate fields) = type :: sep.intercalate fields :=
    List.take_of_length_le (by rw [List.length_cons]; exact Nat.succ_le_succ hlen)
  have hsep : ∀ f ∈ fields, 1 ∉ f := fun f hf hmem => absurd (hfields f hf 1 hmem) (by decide)
  refine ⟨⟨UInt8.ofNat ((type :: sep.intercalate fields).length + 1), sep.intercalate fields, ?_, ?_, ?_⟩,
    htype, hfields⟩
  · rw [packetbuffer, hall, List.cons_append]
  · rw [List.length_cons, UInt8.toNat_ofNat']
    omega
  · exact List.splitOn_intercalate 1 hsep hne

/-! ## §3 — the send functions -/

/-- The messages with text from somebody else in them. -/
inductive Message
  | error (msg : Bytes)
  | personal (src : Int) (msg : Bytes)
  | openMsg (src : Int) (msg : Bytes)
  | status (cls msg : Bytes)
  | important (cls msg : Bytes)
  | cmdout (msg : Bytes)
  | cmdend (msg : Bytes)
  | stored (fromNick msg : Bytes)

/-- The type byte of a message. -/
def Message.type : Message → UInt8
  | .error _ => pktError
  | .personal _ _ | .stored _ _ => pktPersonal
  | .openMsg _ _ => pktOpen
  | .status _ _ => pktStatus
  | .important _ _ => pktImportant
  | .cmdout _ | .cmdend _ => pktCmdout

/-- The texts a message filters, each with the size of the buffer it is filtered into. -/
def Message.texts (w : World) : Message → List (Bytes × Nat)
  | .error msg => [(msg, maxPktData)]
  | .personal src msg | .openMsg src msg =>
      [((w.uTab src).nickname, maxNickLen + 1), (msg, maxPktData - maxNickLen - 1)]
  | .stored fromNick msg => [(fromNick, maxNickLen + 1), (msg, maxPktData - maxNickLen - 1)]
  | .status cls msg | .important cls msg =>
      [(cls, maxStatusLen + 1), (msg, maxPktData - maxStatusLen - 1)]
  | .cmdout msg => [(msg, maxPktData - 3)]
  | .cmdend msg => [(msg, maxPktData - 4)]

/-- The filtered texts. -/
def Message.filtered (w : World) (m : Message) : List Bytes :=
  (m.texts w).map fun p => filtertext p.1 p.2

/-- The fields of a message: the filtered texts, behind what a command output begins with. -/
def Message.fields (w : World) (m : Message) : List Bytes :=
  match m with
  | .cmdout _ => str "co" :: m.filtered w
  | .cmdend _ => str "ec" :: [] :: m.filtered w
  | _ => m.filtered w

/-- Every filtered text leaves room for the NUL in its buffer. -/
def Message.fits (w : World) (m : Message) : Prop :=
  ∀ p ∈ m.texts w, (filtertext p.1 p.2).length < p.2

/-- **Every message's frame is tidy.** -/
theorem Message.tidy {w : World} {m : Message} (h : m.fits w) :
    Tidy (packetbuffer (packet m.type (sep.intercalate (m.fields w)))) m.type (m.fields w) := by
  have hfiltered : ∀ f ∈ m.filtered w, ∀ b ∈ f, 32 ≤ b.toNat := by
    intro f hf b hb
    obtain ⟨p, -, rfl⟩ := List.mem_map.mp hf
    exact filtertext_printable hb
  have htype : 32 ≤ m.type.toNat := by cases m <;> (simp only [Message.type]; decide)
  have hletters {s : Bytes} (hs : s.all fun b => 32 ≤ b.toNat) : ∀ b ∈ s, 32 ≤ b.toNat := fun b hb =>
    of_decide_eq_true (List.all_eq_true.mp hs b hb)
  refine tidy_packet htype ?_ ?_ ?_
  · cases m <;> simp [Message.fields, Message.filtered, Message.texts]
  · cases m with
    | cmdout msg =>
      intro f hf
      rcases List.mem_cons.mp hf with rfl | hf
      · exact hletters (by decide)
      · exact hfiltered f hf
    | cmdend msg =>
      intro f hf
      rcases List.mem_cons.mp hf with rfl | hf
      · exact hletters (by decide)
      rcases List.mem_cons.mp hf with rfl | hf
      · simp
      · exact hfiltered f hf
    | _ => exact hfiltered
  · -- the buffers' sizes add up to the packet's
    have hco : (str "co").length = 2 := rfl
    have hec : (str "ec").length = 2 := rfl
    cases m <;>
      simp [Message.fits, Message.texts, Message.fields, Message.filtered, List.intercalate, sep,
        maxPktData, maxPktLen, maxNickLen, maxStatusLen] at h ⊢ <;>
      omega

section
variable [Env]

/-- The function that sends a message. `cmd` is the `cmdmsg` a personal message to the automatic user
ends in. -/
def Message.send (cmd : Int → Bytes → M Unit) (dst : Int) : Message → M Unit
  | .error msg => onWorld (senderror dst msg)
  | .personal src msg => sendperson cmd src dst msg
  | .openMsg src msg => onWorld (sendopen src dst msg)
  | .status cls msg => onWorld (sendstatus dst cls msg)
  | .important cls msg => onWorld (sendimport dst cls msg)
  | .cmdout msg => onWorld (sendsCmdout dst msg)
  | .cmdend msg => onWorld (sendCmdend dst msg)
  | .stored fromNick msg => sendPersonStored cmd dst fromNick msg

/-- What the sender of a hushed message gets. -/
def bounce : Message := .status (str "Bounce") (str "Message did not go through")

omit [Env] in
theorem bounce_fits (w : World) : bounce.fits w := by
  show ∀ p ∈ [(str "Bounce", maxStatusLen + 1),
    (str "Message did not go through", maxPktData - maxStatusLen - 1)], (filtertext p.1 p.2).length < p.2
  decide +kernel

/-- On the way from one world to the other at most one frame is handed to the packet layer, a tidy one for
`dst` with the message `m`. -/
def OneFrame (dst : Int) (m : Message) (w w' : World) : Prop :=
  w'.out = w.out ∨ ∃ content, w'.out = .send dst content :: w.out ∧
    Tidy (packetbuffer content) m.type (m.fields w)

theorem doSend_oneFrame {dst : Int} {m : Message} {w w₁ : World} {content : Bytes} (hout : w₁.out = w.out)
    (h : m.fits w) (hcontent : content = packet m.type (sep.intercalate (m.fields w))) :
    OneFrame dst m w (doSend dst content w₁).2 := by
  show wp (doSend dst content) (fun _ w' => OneFrame dst m w w') w₁
  refine wp_bind (wp_getW (wp_whenever (fun _ => .inr ⟨content, ?_, ?_⟩) fun _ => .inl hout))
  · exact congrArg (Out.send dst content :: ·) hout
  · rw [hcontent]
    exact m.tidy h

/-- **Outgoing frames are well formed.** Whatever its texts, if each of them fits its buffer when it is
filtered, a message to a connection is at most one frame, and a tidy one; a personal message may be
bounced instead, and so is the frame its sender then gets. -/
theorem message_oneFrame (cmd : Int → Bytes → M Unit) {m : Message} {dst : Int} {d : Daemon}
    (hdst : dst < maxRealUsers) (h : m.fits d.w) :
    OneFrame dst m d.w (m.send cmd dst d).2.w ∨
      ∃ src msg, m = .personal src msg ∧ OneFrame src bounce d.w (m.send cmd dst d).2.w := by
  have hone (a : Bytes) : a = sep.intercalate [a] := by simp [List.intercalate]
  have htwo (a b : Bytes) : a ++ sep ++ b = sep.intercalate [a, b] := by simp [List.intercalate]
  have hnick (nick msg : Bytes) : nickText nick msg = sep.intercalate
      [filtertext nick (maxNickLen + 1), filtertext msg (maxPktData - maxNickLen - 1)] := htwo _ _
  have hclass (cls msg : Bytes) : classText cls msg = sep.intercalate
      [filtertext cls (maxStatusLen + 1), filtertext msg (maxPktData - maxStatusLen - 1)] := htwo _ _
  cases m with
  | error msg => exact .inl (doSend_oneFrame rfl h (congrArg (packet pktError) (hone _)))
  | status cls msg => exact .inl (doSend_oneFrame rfl h (congrArg (packet pktStatus) (hclass _ _)))
  | important cls msg => exact .inl (doSend_oneFrame rfl h (congrArg (packet pktImportant) (hclass _ _)))
  | cmdout msg => exact .inl (doSend_oneFrame rfl h (congrArg (packet pktCmdout) (htwo _ _)))
  | cmdend msg =>
    refine .inl (doSend_oneFrame rfl h (congrArg (packet pktCmdout) ?_))
    simp [Message.fields, Message.filtered, Message.texts, List.intercalate]
  | openMsg src msg => exact .inl (doSend_oneFrame rfl h (congrArg (packet pktOpen) (hnick _ _)))
  | stored fromNick msg =>
    left
    show OneFrame dst _ d.w (deliver cmd (-1) dst (packet pktPersonal (nickText fromNick msg)) d).2.w
    rw [deliver, if_neg (by omega)]
    exact doSend_oneFrame rfl h (congrArg (packet pktPersonal) (hnick _ _))
  | personal src msg =>
    show wp (sendperson cmd src dst msg) (fun _ d' => OneFrame dst (.personal src msg) d.w d'.w ∨
      ∃ src' msg', Message.personal src msg = .personal src' msg' ∧ OneFrame src' bounce d.w d'.w) d
    refine wp_bind (wp_onWorld (wp_getW (wp_bind (wp_onWorld (wp_getU (wp_ite (fun _ => ?_) fun _ => ?_))))))
    · exact .inr ⟨src, msg, rfl, doSend_oneFrame rfl (bounce_fits d.w) (congrArg (packet pktStatus) (hclass _ _))⟩
    · refine wp_bind (wp_onWorld ?_)
      rw [deliver, if_neg (by omega)]
      exact .inl (doSend_oneFrame rfl h (congrArg (packet pktPersonal) (hnick _ _)))

end

section
attribute [local instance] smallEnv

/-- A status whose text has a `^A`, a newline and a character of two bytes in it. -/
theorem message_oneFrame_status : OneFrame 1 (.status (str "No") [65, 1, 10, 195, 169]) {}
    ((Message.status (str "No") [65, 1, 10, 195, 169]).send noCmd 1 { w := {} }).2.w := by
  refine (message_oneFrame noCmd (by decide) ?_).resolve_right (by rintro ⟨_, _, hm, -⟩; cases hm)
  show ∀ p ∈ [(str "No", maxStatusLen + 1), ([65, 1, 10, 195, 169], maxPktData - maxStatusLen - 1)],
    (filtertext p.1 p.2).length < p.2
  decide +kernel

end

end Icbd.Server
