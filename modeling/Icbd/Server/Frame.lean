/-
# Icbd.Server.Frame — what each handler can change.

A relation between two worlds accepts a kind of write when it relates every world to the world after
such a write. Handlers stay within every relation that accepts the kinds of writes they make, by
instance search through their text: so "this handler changes no nickname" and "this handler keeps
that invariant" are instances, and only the handlers that make a write the relation does not accept
need an argument of their own.
-/
import Icbd.Server.Poll

-- every bind doubles the size of the search's argument
set_option synthInstance.maxSize 1000000000000000000000000000000000000000000000000
set_option synthInstance.maxHeartbeats 200000

namespace Icbd.Server

open Icbd.Lib

/-! ## §1 — kinds of writes -/

section
variable (R : World → World → Prop)

/-- Globals other than the tables and the database may change. -/
class Base : Prop extends IsPreorder World R where
  misc : ∀ w m, R w (w.withMisc m)

/-- Packets may be sent to slot `n`. -/
class SendsTo (n : Int) : Prop where
  sends : ∀ w c, R w { w with out := .send n c :: w.out }

/-- A packet that is not an open message. -/
class Unspoken (c : Bytes) : Prop where
  unspoken : c.head? ≠ some pktOpen
  packed : ∃ type text, c = packet type text

/-- Packets other than open messages may be sent to slot `n`. -/
class PlainTo (n : Int) : Prop where
  sends : ∀ w c, Unspoken c → R w { w with out := .send n c :: w.out }

/-- Open messages may be sent to slot `n`. -/
class OpensTo (n : Int) : Prop where
  opens : ∀ w text, R w { w with out := .send n (packet pktOpen text) :: w.out }

/-- Connections may be dropped. -/
class Drops : Prop where
  drops : ∀ w n, R w { w with out := .disconnect n :: w.out }

/-- The options of user `n` may change. -/
class UOpts (n : Int) : Prop where
  uopts : ∀ w (f : UserOpts → UserOpts), R w (w.modU n fun u => { u with toUserOpts := f u.toUserOpts })

/-- An update of a user's options that leaves alone what is used as a format later on, his away message and
how it is echoed to him, or takes the message away. -/
class Lightly (f : UserOpts → UserOpts) : Prop where
  lightly : ∀ o, (f o).awaymsg = [] ∨ (f o).awaymsg = o.awaymsg ∧ (f o).echoback = o.echoback

/-- The options of user `n` may change lightly. -/
class ULight (n : Int) : Prop where
  ulight : ∀ w f, Lightly f → R w (w.modU n fun u => { u with toUserOpts := f u.toUserOpts })

/-- A user's lists have their capacity, hold no name twice and are in capitals. -/
structure UserOpts.Neat (o : UserOpts) : Prop where
  priN : o.priNHushed.Shouted maxHushed
  pubN : o.pubNHushed.Shouted maxHushed
  priS : o.priSHushed.Shouted maxHushed
  pubS : o.pubSHushed.Shouted maxHushed
  n : ∃ k ≤ maxNotifies, 0 < k ∧ o.nNotifies.Shouted k
  s : ∃ k ≤ maxNotifies, 0 < k ∧ o.sNotifies.Shouted k

/-- A light update of a user's options that leaves his lists neat. -/
class UNeatly (f : UserOpts → UserOpts) : Prop extends Lightly f where
  neatly : ∀ o, o.Neat → (f o).Neat

/-- The options of user `n` may change lightly and neatly. -/
class UNeatAt (n : Int) : Prop where
  uneat : ∀ w f, UNeatly f → R w (w.modU n fun u => { u with toUserOpts := f u.toUserOpts })

/-- The options of groups may change. -/
class GOpts : Prop where
  gopts : ∀ w i (f : GroupOpts → GroupOpts), R w (w.modG i fun g => { g with toGroupOpts := f g.toGroupOpts })

/-- The attribute `key` of records may be stored or deleted. -/
class DbTo (key : String) : Prop where
  db : ∀ w nick v, R w { w with db := Function.update w.db (dbKey nick key) v }

/-- User `n` may get the nickname `v`. -/
class NickTo (n : Int) (v : Bytes) : Prop where
  nick : ∀ w, R w (w.modU n fun u => { u with nickname := v })

/-- User `n` may get the real name `v`. -/
class RealTo (n : Int) (v : Bytes) : Prop where
  real : ∀ w, R w (w.modU n fun u => { u with realname := v })

/-- The login id, the address and the password of user `n` may change. -/
class IdentTo (n : Int) : Prop where
  ident : ∀ w a b c, R w (w.modU n fun u => { u with loginid := a, nodeid := b, password := c })

/-- User `n` may change groups. -/
class UGroupTo (n : Int) : Prop where
  ugroup : ∀ w v, R w (w.modU n fun u => { u with group := v })

/-- The login state of user `n` may become `v`. -/
class LoginTo (n : Int) (v : Login) : Prop where
  login : ∀ w, R w (w.modU n fun u => { u with login := v })

/-- Groups may get the moderator `v`. -/
class ModTo (v : Int) : Prop where
  mod : ∀ w i, R w (w.modG i fun g => { g with mod := v })

/-- Group `i` may get the moderator `v`. -/
class ModAt (i v : Int) : Prop where
  mod : ∀ w, R w (w.modG i fun g => { g with mod := v })

/-- The missing moderator of groups and his timeout may change. -/
class MissTo : Prop where
  miss : ∀ w i a b, R w (w.modG i fun g => { g with missingmod := a, modtimeout := b })

/-- The missing moderator of group `i` and his timeout may change. -/
class MissAt (i : Int) : Prop where
  miss : ∀ w a b, R w (w.modG i fun g => { g with missingmod := a, modtimeout := b })

/-- Groups may be renamed. -/
class GNameTo : Prop where
  gname : ∀ w i v, R w (w.modG i fun g => { g with name := v })

/-- The login id, the address and the password of user `n` may change to what fits their arrays. -/
class IdentFit (n : Int) : Prop where
  ident : ∀ w a b c, a.length ≤ maxIdLen → b.length ≤ maxNodeLen → c.length ≤ maxPasswdLen →
    R w (w.modU n fun u => { u with loginid := a, nodeid := b, password := c })

/-- User `n` may change to a group whose name fits. -/
class UGroupFit (n : Int) : Prop where
  ugroup : ∀ w v, v.length ≤ maxGroupLen → R w (w.modU n fun u => { u with group := v })

/-- The missing moderator of group `i` may change to a name that fits, and his timeout. -/
class MissFit (i : Int) : Prop where
  miss : ∀ w a b, a.length ≤ maxNickLen → R w (w.modG i fun g => { g with missingmod := a, modtimeout := b })

/-- Groups may get a name that fits. -/
class GNameFit : Prop where
  gname : ∀ w i v, v.length ≤ maxGroupLen → R w (w.modG i fun g => { g with name := v })

/-- Nobody's identity is touched and nobody is dropped: packets, options and globals only. -/
class Tame : Prop extends Base R, GOpts R where
  toSends : ∀ n, SendsTo R n
  toUOpts : ∀ n, UOpts R n

/-- Connections may be dropped as well. -/
class Calm : Prop extends Tame R, Drops R

/-- The options of group `i` may change. -/
class GOptsAt (i : Int) : Prop where
  gopts : ∀ w (f : GroupOpts → GroupOpts), R w (w.modG i fun g => { g with toGroupOpts := f g.toGroupOpts })

/-- An update of a group's options that leaves its idle-boot message alone or takes it away. -/
class GLightly (f : GroupOpts → GroupOpts) : Prop where
  lightly : ∀ o, (f o).idlebootMsg = [] ∨ (f o).idlebootMsg = o.idlebootMsg

/-- The options of group `i` may change lightly. -/
class GLightAt (i : Int) : Prop where
  glight : ∀ w f, GLightly f → R w (w.modG i fun g => { g with toGroupOpts := f g.toGroupOpts })

/-- The invite lists have their capacity and hold no name twice. -/
structure GroupOpts.Sound (o : GroupOpts) : Prop where
  n : o.nInvites.Sound maxInvites
  nr : o.nrInvites.Sound maxInvites
  s : o.sInvites.Sound maxInvites
  sr : o.srInvites.Sound maxInvites

/-- A light update of a group's options that leaves it with sound invite lists. -/
class GSoundly (f : GroupOpts → GroupOpts) : Prop extends GLightly f where
  soundly : ∀ o, o.Sound → (f o).Sound

/-- The options of group `i` may change lightly and soundly. -/
class GSoundAt (i : Int) : Prop where
  gsound : ∀ w f, GSoundly f → R w (w.modG i fun g => { g with toGroupOpts := f g.toGroupOpts })

/-- The control of a group after an update that does not make it controlled. -/
class Uncontrolling (c : GroupOpts → Control) : Prop where
  uncontrolling : ∀ o, c o = .controlled → o.control = .controlled

/-- A light and sound update of a group's options that does not make it controlled. -/
class GTamely (f : GroupOpts → GroupOpts) : Prop extends GSoundly f where
  tamely : Uncontrolling fun o => (f o).control

/-- The options of group `i` may change lightly and soundly, as long as it is not made controlled. -/
class GTameAt (i : Int) : Prop where
  gtame : ∀ w f, GTamely f → R w (w.modG i fun g => { g with toGroupOpts := f g.toGroupOpts })

/-- Nobody is on the invite lists. -/
structure GroupOpts.Guestless (o : GroupOpts) : Prop where
  n : o.nInvites.names = []
  nr : o.nrInvites.names = []
  s : o.sInvites.names = []
  sr : o.srInvites.names = []

/-- A group has no invitations unless it is restricted, its topic fits, and its talk lists hold names. -/
structure GroupOpts.Orderly (o : GroupOpts) : Prop where
  guests : o.control ≠ .restricted → o.Guestless
  topic : o.topic.length ≤ maxTopicLen
  nTalk : o.nTalk.Live
  nrTalk : o.nrTalk.Live

/-- A tame update of a group's options that keeps them in order. -/
class GOrderly (f : GroupOpts → GroupOpts) : Prop extends GTamely f where
  orderly : ∀ o, o.Orderly → (f o).Orderly

/-- The options of group `i` may change as long as they stay in order. -/
class GOrderlyAt (i : Int) : Prop where
  gorderly : ∀ w f, GOrderly f → R w (w.modG i fun g => { g with toGroupOpts := f g.toGroupOpts })

/-- Packets other than open messages may be sent to anybody. -/
class Posts : Prop extends Base R where
  toPlain : ∀ n, PlainTo R n

/-- Packets other than open messages, and light and neat changes of users' options. -/
class Light : Prop extends Posts R where
  toUNeat : ∀ n, UNeatAt R n

/-- Connections may be dropped as well. -/
class Soft : Prop extends Light R, Drops R

/-- `Tame` without the groups and without open messages. -/
class Mild : Prop extends Posts R where
  toUOpts : ∀ n, UOpts R n

/-- `Calm` without the groups and without open messages. -/
class Still : Prop extends Mild R, Drops R

end

variable [Env] {R : World → World → Prop} {n i j k : Int} {v a b c cls msg text arg : Bytes}
  {key : String} {lg : Login}

instance [SendsTo R n] : PlainTo R n := ⟨fun w c _ => SendsTo.sends w c⟩
instance [SendsTo R n] : OpensTo R n := ⟨fun w _ => SendsTo.sends w _⟩
instance [Posts R] (n : Int) : PlainTo R n := Posts.toPlain n
instance [Mild R] (n : Int) : UOpts R n := Mild.toUOpts n
instance [Tame R] (n : Int) : SendsTo R n := Tame.toSends n
instance [UOpts R n] : ULight R n := ⟨fun w f _ => UOpts.uopts w f⟩
instance [ULight R n] : UNeatAt R n := ⟨fun w f hf => ULight.ulight w f hf.toLightly⟩
instance [Light R] (n : Int) : UNeatAt R n := Light.toUNeat n
instance [GOptsAt R i] : GLightAt R i := ⟨fun w f _ => GOptsAt.gopts w f⟩
instance [GLightAt R i] : GSoundAt R i := ⟨fun w f hf => GLightAt.glight w f hf.toGLightly⟩
instance [GSoundAt R i] : GTameAt R i := ⟨fun w f hf => GSoundAt.gsound w f hf.toGSoundly⟩
instance [GTameAt R i] : GOrderlyAt R i := ⟨fun w f hf => GTameAt.gtame w f hf.toGTamely⟩
instance [GOpts R] (i : Int) : GOptsAt R i := ⟨fun w f => GOpts.gopts w i f⟩
instance [ModTo R j] (i : Int) : ModAt R i j := ⟨fun w => ModTo.mod w i⟩
instance [MissTo R] (i : Int) : MissAt R i := ⟨fun w a b => MissTo.miss w i a b⟩
instance [IdentTo R n] : IdentFit R n := ⟨fun w a b c _ _ _ => IdentTo.ident w a b c⟩
instance [UGroupTo R n] : UGroupFit R n := ⟨fun w v _ => UGroupTo.ugroup w v⟩
instance [MissAt R i] : MissFit R i := ⟨fun w a b _ => MissAt.miss w a b⟩
instance [GNameTo R] : GNameFit R := ⟨fun w i v _ => GNameTo.gname w i v⟩

instance [Tame R] : Mild R where
  toPlain _ := inferInstance
  toUOpts := Tame.toUOpts

instance [Calm R] : Still R where
  toPlain := Posts.toPlain
  toUOpts := Mild.toUOpts

instance [Mild R] : Light R where
  toPlain := Posts.toPlain
  toUNeat _ := inferInstance

instance [Still R] : Soft R where
  toUNeat := Light.toUNeat

omit [Env] in
theorem unspoken_packet {type : UInt8} (h : type ≠ pktOpen) (text : Bytes) : Unspoken (packet type text) :=
  ⟨fun hopen => h (Option.some.inj hopen), type, text, rfl⟩

instance : Unspoken (packet pktLogin text) := unspoken_packet (by decide) text
instance : Unspoken (packet pktPersonal text) := unspoken_packet (by decide) text
instance : Unspoken (packet pktStatus text) := unspoken_packet (by decide) text
instance : Unspoken (packet pktError text) := unspoken_packet (by decide) text
instance : Unspoken (packet pktImportant text) := unspoken_packet (by decide) text
instance : Unspoken (packet pktExit text) := unspoken_packet (by decide) text
instance : Unspoken (packet pktCmdout text) := unspoken_packet (by decide) text
instance : Unspoken (packet pktProto text) := unspoken_packet (by decide) text
instance : Unspoken (packet pktBeep text) := unspoken_packet (by decide) text
instance : Unspoken (packet pktPing text) := unspoken_packet (by decide) text

/-! ## §2 — light updates -/

section
variable {a b c d e k l m : UserOpts → Int} {p : UserOpts → Nat} {s : UserOpts → Bool}
  {q r t u v x : UserOpts → NamList}

omit [Env] in
instance : Lightly fun o => UserOpts.mk o.awaymsg (a o) (b o) o.echoback (c o) (p o) (d o) (e o) (k o) (l o)
    (m o) (s o) (q o) (r o) (t o) (u o) (v o) (x o) :=
  ⟨fun _ => .inr ⟨rfl, rfl⟩⟩

variable {y : UserOpts → Int}

omit [Env] in
instance : Lightly fun o => UserOpts.mk [] (a o) (b o) (y o) (c o) (p o) (d o) (e o) (k o) (l o)
    (m o) (s o) (q o) (r o) (t o) (u o) (v o) (x o) :=
  ⟨fun _ => .inl rfl⟩

end

instance {l : HushList} {nl : NamList} : Lightly fun o => l.set o nl := by
  cases l <;> exact ⟨fun _ => .inr ⟨rfl, rfl⟩⟩

instance {site : Bool} {nl : NamList} : Lightly (notifySet site nl) := by
  cases site <;> exact ⟨fun _ => .inr ⟨rfl, rfl⟩⟩

/-- A hush list. -/
class HushNeat (l : UserOpts → NamList) : Prop where
  neat : ∀ o, o.Neat → (l o).Shouted maxHushed

omit [Env] in
instance : HushNeat fun o => o.priNHushed := ⟨fun _ h => h.priN⟩

omit [Env] in
instance : HushNeat fun o => o.pubNHushed := ⟨fun _ h => h.pubN⟩

omit [Env] in
instance : HushNeat fun o => o.priSHushed := ⟨fun _ h => h.priS⟩

omit [Env] in
instance : HushNeat fun o => o.pubSHushed := ⟨fun _ h => h.pubS⟩

omit [Env] in
instance : HushNeat fun _ => nlinit maxHushed := ⟨fun _ _ => nlinit_shouted _⟩

omit [Env] in
instance {l : UserOpts → NamList} [HushNeat l] : HushNeat fun o => nlclear (l o) :=
  ⟨fun o h => (HushNeat.neat o h).nlclear⟩

/-- A notify list. -/
class NotifyNeat (l : UserOpts → NamList) : Prop where
  neat : ∀ o, o.Neat → ∃ k ≤ maxNotifies, 0 < k ∧ (l o).Shouted k

omit [Env] in
instance : NotifyNeat fun o => o.nNotifies := ⟨fun _ h => h.n⟩

omit [Env] in
instance : NotifyNeat fun o => o.sNotifies := ⟨fun _ h => h.s⟩

omit [Env] in
instance : NotifyNeat fun _ => nlinit maxNotifies := ⟨fun _ _ => ⟨_, le_rfl, by decide, nlinit_shouted _⟩⟩

omit [Env] in
instance {l : UserOpts → NamList} [NotifyNeat l] : NotifyNeat fun o => nlclear (l o) := by
  refine ⟨fun o h => ?_⟩
  obtain ⟨k, hk, hpos, hl⟩ := NotifyNeat.neat (l := l) o h
  exact ⟨k, hk, hpos, hl.nlclear⟩

section
variable {a b c d e k l m : UserOpts → Int} {p : UserOpts → Nat} {s : UserOpts → Bool}
  {q r t u v x : UserOpts → NamList} [HushNeat q] [HushNeat r] [HushNeat t] [HushNeat u] [NotifyNeat v]
  [NotifyNeat x]

omit [Env] in
instance : UNeatly fun o => UserOpts.mk o.awaymsg (a o) (b o) o.echoback (c o) (p o) (d o) (e o) (k o) (l o)
    (m o) (s o) (q o) (r o) (t o) (u o) (v o) (x o) where
  neatly o h := ⟨HushNeat.neat o h, HushNeat.neat o h, HushNeat.neat o h, HushNeat.neat o h, NotifyNeat.neat o h,
    NotifyNeat.neat o h⟩

variable {y : UserOpts → Int}

omit [Env] in
instance : UNeatly fun o => UserOpts.mk [] (a o) (b o) (y o) (c o) (p o) (d o) (e o) (k o) (l o)
    (m o) (s o) (q o) (r o) (t o) (u o) (v o) (x o) where
  neatly o h := ⟨HushNeat.neat o h, HushNeat.neat o h, HushNeat.neat o h, HushNeat.neat o h, NotifyNeat.neat o h,
    NotifyNeat.neat o h⟩

end

/-- A list that is sound where the invite lists are. -/
class SoundList (l : GroupOpts → NamList) : Prop where
  sound : ∀ o, o.Sound → (l o).Sound maxInvites

omit [Env] in
instance : SoundList fun o => o.nInvites := ⟨fun _ h => h.n⟩

omit [Env] in
instance : SoundList fun o => o.nrInvites := ⟨fun _ h => h.nr⟩

omit [Env] in
instance : SoundList fun o => o.sInvites := ⟨fun _ h => h.s⟩

omit [Env] in
instance : SoundList fun o => o.srInvites := ⟨fun _ h => h.sr⟩

omit [Env] in
instance : SoundList fun _ => nlinit maxInvites := ⟨fun _ _ => nlinit_sound _⟩

section
variable {l : GroupOpts → NamList} [SoundList l] {who : Bytes}

omit [Env] in
instance : SoundList fun o => nlclear (l o) := ⟨fun o h => (SoundList.sound o h).nlclear⟩

omit [Env] in
instance : SoundList fun o => nlput (l o) who := ⟨fun o h => (SoundList.sound o h).nlput (by decide)⟩

end

section
variable {a : GroupOpts → Bytes} {b : GroupOpts → Visibility} {c : GroupOpts → Control}
  {d : GroupOpts → Volume} {e f g h k l m p q r : GroupOpts → NamList} {s t u : GroupOpts → Int}
  [SoundList e] [SoundList f] [SoundList g] [SoundList h]

omit [Env] in
instance : GSoundly fun o => GroupOpts.mk (a o) (b o) (c o) (d o) (e o) (f o) (g o) (h o) (k o) (l o) (m o)
    (p o) (q o) (r o) (s o) (t o) o.idlebootMsg (u o) where
  lightly _ := .inr rfl
  soundly o ho := ⟨SoundList.sound o ho, SoundList.sound o ho, SoundList.sound o ho, SoundList.sound o ho⟩

omit [Env] in
instance : GSoundly fun o => GroupOpts.mk (a o) (b o) (c o) (d o) (e o) (f o) (g o) (h o) (k o) (l o) (m o)
    (p o) (q o) (r o) (s o) (t o) [] (u o) where
  lightly _ := .inl rfl
  soundly o ho := ⟨SoundList.sound o ho, SoundList.sound o ho, SoundList.sound o ho, SoundList.sound o ho⟩

end

section
variable {f g : GroupOpts → GroupOpts} [GSoundly f] [GSoundly g]

omit [Env] in
instance : GSoundly fun o => clearBars (f o) where
  lightly := GLightly.lightly (f := f)
  soundly o ho := by
    have hf := GSoundly.soundly (f := f) o ho
    exact ⟨hf.n, hf.nr, hf.s, hf.sr⟩

omit [Env] in
instance : GSoundly fun o => clearInvites (f o) where
  lightly := GLightly.lightly (f := f)
  soundly _ _ := ⟨nlinit_sound _, nlinit_sound _, nlinit_sound _, nlinit_sound _⟩

omit [Env] in
instance {p : Prop} [Decidable p] : GSoundly fun o => if p then f o else g o := by
  by_cases hp : p
  · simpa [hp] using inferInstanceAs (GSoundly f)
  · simpa [hp] using inferInstanceAs (GSoundly g)

end

omit [Env] in
instance : Uncontrolling fun o => o.control := ⟨fun _ h => h⟩

omit [Env] in
instance : Uncontrolling fun _ => .pub := ⟨nofun⟩

omit [Env] in
instance : Uncontrolling fun _ => .moderated := ⟨nofun⟩

omit [Env] in
instance : Uncontrolling fun _ => .restricted := ⟨nofun⟩

section
variable {a : GroupOpts → Bytes} {b : GroupOpts → Visibility} {c : GroupOpts → Control}
  {d : GroupOpts → Volume} {e f g h k l m p q r : GroupOpts → NamList} {s t u : GroupOpts → Int}
  [Uncontrolling c] [SoundList e] [SoundList f] [SoundList g] [SoundList h]

omit [Env] in
instance : GTamely fun o => GroupOpts.mk (a o) (b o) (c o) (d o) (e o) (f o) (g o) (h o) (k o) (l o) (m o)
    (p o) (q o) (r o) (s o) (t o) o.idlebootMsg (u o) where
  tamely := inferInstanceAs (Uncontrolling c)

omit [Env] in
instance : GTamely fun o => GroupOpts.mk (a o) (b o) (c o) (d o) (e o) (f o) (g o) (h o) (k o) (l o) (m o)
    (p o) (q o) (r o) (s o) (t o) [] (u o) where
  tamely := inferInstanceAs (Uncontrolling c)

end

section
variable {f g : GroupOpts → GroupOpts} [GTamely f] [GTamely g]

omit [Env] in
instance : GTamely fun o => clearBars (f o) where
  tamely := GTamely.tamely (f := f)

omit [Env] in
instance : GTamely fun o => clearInvites (f o) where
  tamely := GTamely.tamely (f := f)

omit [Env] in
instance {p : Prop} [Decidable p] : GTamely fun o => if p then f o else g o := by
  by_cases hp : p
  · simpa [hp] using inferInstanceAs (GTamely f)
  · simpa [hp] using inferInstanceAs (GTamely g)

end

instance {site reg : Bool} {who : Bytes} : GTamely (putInvite site reg who) := by
  unfold putInvite
  infer_instance

omit [Env] in
/-- A write that leaves the control and the invitations alone. -/
theorem GroupOpts.Orderly.congr {o o' : GroupOpts} (h : o.Orderly) (hcontrol : o'.control = o.control)
    (hn : o'.nInvites = o.nInvites) (hnr : o'.nrInvites = o.nrInvites) (hs : o'.sInvites = o.sInvites)
    (hsr : o'.srInvites = o.srInvites) (htopic : o'.topic.length ≤ maxTopicLen) (hnTalk : o'.nTalk.Live)
    (hnrTalk : o'.nrTalk.Live) : o'.Orderly := by
  refine ⟨fun hopen => ?_, htopic, hnTalk, hnrTalk⟩
  have hguests := h.guests (hcontrol ▸ hopen)
  exact ⟨hn ▸ hguests.n, hnr ▸ hguests.nr, hs ▸ hguests.s, hsr ▸ hguests.sr⟩

/-- A list with nothing on it. -/
class Emptied (l : GroupOpts → NamList) : Prop where
  emptied : ∀ o, (l o).names = []

omit [Env] in
instance {m : Nat} : Emptied fun _ => nlinit m := ⟨fun _ => rfl⟩

omit [Env] in
instance {l : GroupOpts → NamList} : Emptied fun o => nlclear (l o) := ⟨fun _ => rfl⟩

/-- A talk list that holds names if the old ones did. -/
class LiveList (l : GroupOpts → NamList) : Prop where
  live : ∀ o : GroupOpts, o.nTalk.Live → o.nrTalk.Live → (l o).Live

omit [Env] in
instance : LiveList fun o => o.nTalk := ⟨fun _ h _ => h⟩

omit [Env] in
instance : LiveList fun o => o.nrTalk := ⟨fun _ _ h => h⟩

section
variable {l : GroupOpts → NamList} [LiveList l] {who : Bytes}

omit [Env] in
instance : LiveList fun o => nlclear (l o) := ⟨fun _ _ _ => .nil⟩

omit [Env] in
instance : LiveList fun o => (nldelete (l o) who).2 := ⟨fun o h hr => (LiveList.live o h hr).nldelete⟩

end

/-- A topic that fits if the old one did. -/
class Fitting (t : GroupOpts → Bytes) : Prop where
  fitting : ∀ o : GroupOpts, o.topic.length ≤ maxTopicLen → (t o).length ≤ maxTopicLen

omit [Env] in
instance : Fitting fun o => o.topic := ⟨fun _ h => h⟩

omit [Env] in
instance : Fitting fun _ => [] := ⟨fun _ _ => Nat.zero_le _⟩

omit [Env] in
instance : Fitting fun _ => v.take maxTopicLen := ⟨fun _ _ => List.length_take_le _ _⟩

section
variable {a : GroupOpts → Bytes} {b : GroupOpts → Visibility} {c : GroupOpts → Control}
  {d : GroupOpts → Volume} {e f g h k l m p q r : GroupOpts → NamList} {s t u : GroupOpts → Int}
  [Fitting a] [LiveList q] [LiveList r]

omit [Env] in
/-- What leaves the control and the invitations alone. -/
instance : GOrderly fun o => GroupOpts.mk (a o) (b o) o.control (d o) o.nInvites o.nrInvites o.sInvites
    o.srInvites (k o) (l o) (m o) (p o) (q o) (r o) (s o) (t o) o.idlebootMsg (u o) where
  orderly o ho := ho.congr rfl rfl rfl rfl rfl (Fitting.fitting o ho.topic) (LiveList.live o ho.nTalk ho.nrTalk)
    (LiveList.live o ho.nTalk ho.nrTalk)

variable [Uncontrolling c] [SoundList e] [SoundList f] [SoundList g] [SoundList h]
  [Emptied e] [Emptied f] [Emptied g] [Emptied h]

omit [Env] in
/-- What clears the invitations. -/
instance : GOrderly fun o => GroupOpts.mk (a o) (b o) (c o) (d o) (e o) (f o) (g o) (h o) (k o) (l o) (m o)
    (p o) (q o) (r o) (s o) (t o) [] (u o) where
  orderly o ho := by
    refine ⟨fun _ => ⟨?_, ?_, ?_, ?_⟩, Fitting.fitting o ho.topic, LiveList.live o ho.nTalk ho.nrTalk,
      LiveList.live o ho.nTalk ho.nrTalk⟩ <;> exact Emptied.emptied o

end

section
variable {a : GroupOpts → Bytes} {b : GroupOpts → Visibility} {c : GroupOpts → Control}
  {d : GroupOpts → Volume} {e f g h k l m p q r : GroupOpts → NamList} {s t u : GroupOpts → Int}
  [Fitting a] [LiveList q] [LiveList r] [Uncontrolling c] [SoundList e] [SoundList f] [SoundList g] [SoundList h]

omit [Env] in
instance : GOrderly fun o => clearInvites (GroupOpts.mk (a o) (b o) (c o) (d o) (e o) (f o) (g o) (h o) (k o)
    (l o) (m o) (p o) (q o) (r o) (s o) (t o) o.idlebootMsg (u o)) where
  orderly o ho := ⟨fun _ => ⟨rfl, rfl, rfl, rfl⟩, Fitting.fitting (t := a) o ho.topic,
    LiveList.live (l := q) o ho.nTalk ho.nrTalk, LiveList.live (l := r) o ho.nTalk ho.nrTalk⟩

end

omit [Env] in
instance {f : GroupOpts → GroupOpts} [GOrderly f] : GOrderly fun o => clearBars (f o) where
  orderly o ho := by
    have hf := GOrderly.orderly (f := f) o ho
    exact hf.congr rfl rfl rfl rfl rfl hf.topic hf.nTalk hf.nrTalk

omit [Env] in
instance {f g : GroupOpts → GroupOpts} [GOrderly f] [GOrderly g] {p : Prop} [Decidable p] :
    GOrderly fun o => if p then f o else g o := by
  by_cases hp : p
  · simpa [hp] using inferInstanceAs (GOrderly f)
  · simpa [hp] using inferInstanceAs (GOrderly g)

/-! ## §3 — the primitives -/

instance [Base R] (n : Int) : Within R (getU n) where
  within w := Base.misc w { w.misc with fault := w.fault || !inUsers n }

instance [Base R] (i : Int) : Within R (getG i) where
  within w := Base.misc w { w.misc with fault := w.fault || !inGroups i }

instance [Base R] : Within R getW where
  within w := refl_of R w

instance [Base R] (f : Misc → Misc) : Within R (modMisc f) where
  within w := Base.misc w _

instance [PlainTo R n] (c : Bytes) [hc : Unspoken c] : Within R (emit (.send n c)) where
  within w := PlainTo.sends w c hc

instance [OpensTo R n] : Within R (emit (.send n (packet pktOpen text))) where
  within w := OpensTo.opens w text

instance [Drops R] : Within R (emit (.disconnect n)) where
  within w := Drops.drops w n

instance [UOpts R n] (f : UserOpts → UserOpts) : Within R (modUOpts n f) where
  within w := UOpts.uopts w f

instance [ULight R n] (f : UserOpts → UserOpts) [hf : Lightly f] : Within R (modUOpts n f) where
  within w := ULight.ulight w f hf

instance [UNeatAt R n] (f : UserOpts → UserOpts) [hf : UNeatly f] : Within R (modUOpts n f) where
  within w := UNeatAt.uneat w f hf

instance (i : Int) [GOptsAt R i] (f : GroupOpts → GroupOpts) : Within R (modGOpts i f) where
  within w := GOptsAt.gopts w f

instance (i : Int) [GSoundAt R i] (f : GroupOpts → GroupOpts) [hf : GSoundly f] : Within R (modGOpts i f) where
  within w := GSoundAt.gsound w f hf

instance (i : Int) [GTameAt R i] (f : GroupOpts → GroupOpts) [hf : GTamely f] : Within R (modGOpts i f) where
  within w := GTameAt.gtame w f hf

instance (i : Int) [GOrderlyAt R i] (f : GroupOpts → GroupOpts) [hf : GOrderly f] : Within R (modGOpts i f) where
  within w := GOrderlyAt.gorderly w f hf

instance [IdentTo R n] : Within R (setIdent n a b c) where
  within w := IdentTo.ident w a b c

instance [NickTo R n v] : Within R (setNickname n v) where
  within w := NickTo.nick w

instance [RealTo R n v] : Within R (setRealname n v) where
  within w := RealTo.real w

instance [UGroupTo R n] : Within R (setUserGroup n v) where
  within w := UGroupTo.ugroup w v

instance [LoginTo R n lg] : Within R (setLogin n lg) where
  within w := LoginTo.login w

instance [ModAt R i j] : Within R (setMod i j) where
  within w := ModAt.mod w

instance [MissAt R i] : Within R (setMissing i a j) where
  within w := MissAt.miss w a j

instance [GNameTo R] : Within R (setGroupName i v) where
  within w := GNameTo.gname w i v

instance [IdentFit R n] : Within R (setIdent n (a.take maxIdLen) (b.take maxNodeLen) (c.take maxPasswdLen)) where
  within w := IdentFit.ident w _ _ _ (List.length_take_le _ _) (List.length_take_le _ _) (List.length_take_le _ _)

instance [IdentFit R n] : Within R (setIdent n [] [] []) where
  within w := IdentFit.ident w _ _ _ (Nat.zero_le _) (Nat.zero_le _) (Nat.zero_le _)

instance [UGroupFit R n] : Within R (setUserGroup n (v.take maxGroupLen)) where
  within w := UGroupFit.ugroup w _ (List.length_take_le _ _)

instance [UGroupFit R n] : Within R (setUserGroup n []) where
  within w := UGroupFit.ugroup w _ (Nat.zero_le _)

instance [MissFit R i] : Within R (setMissing i (v.take maxNickLen) j) where
  within w := MissFit.miss w _ j (List.length_take_le _ _)

instance [MissFit R i] : Within R (setMissing i [] j) where
  within w := MissFit.miss w _ j (Nat.zero_le _)

instance [GNameFit R] : Within R (setGroupName i (v.take maxGroupLen)) where
  within w := GNameFit.gname w i _ (List.length_take_le _ _)

instance [GNameFit R] : Within R (setGroupName i []) where
  within w := GNameFit.gname w i _ (Nat.zero_le _)

omit [Env] in
/-- The name of a group that is created fits. -/
theorem targetName_length (a : Bytes) : (filtergroupname (parseTarget a).1).length ≤ maxGroupLen := by
  rw [filtergroupname, List.length_map]
  unfold parseTarget
  split_ifs <;> exact List.length_take_le _ _

instance [GNameFit R] : Within R (setGroupName i (filtergroupname (parseTarget a).1)) where
  within w := GNameFit.gname w i _ (targetName_length a)

instance [Base R] (nick : Bytes) (key : String) : Within R (dbGet nick key) where
  within w := refl_of R w

instance [Base R] [DbTo R key] (nick v : Bytes) : Within R (dbSet nick key v) where
  within w := by
    unfold dbSet
    split
    · exact DbTo.db w nick _
    · exact refl_of R w

instance [Base R] [DbTo R key] (nick : Bytes) : Within R (dbDelete nick key) where
  within w := by
    unfold dbDelete
    split
    · exact DbTo.db w nick _
    · exact refl_of R w

/-! ## §4 — `send.c` -/

instance [Base R] [PlainTo R n] [Unspoken c] : Within R (doSend n c) := by
  unfold doSend
  infer_instance

instance [Base R] [PlainTo R n] : Within R (senderror n msg) := by
  unfold senderror
  infer_instance

instance [Base R] [PlainTo R n] : Within R (sendstatus n cls msg) := by
  unfold sendstatus
  infer_instance

instance [Base R] [PlainTo R n] : Within R (sendimport n cls msg) := by
  unfold sendimport
  infer_instance

instance [Base R] [OpensTo R n] : Within R (sendopen i n msg) := by
  unfold sendopen doSend
  infer_instance

instance [Base R] [PlainTo R n] : Within R (sendexit n) := by
  unfold sendexit
  infer_instance

instance [Base R] [PlainTo R n] : Within R (sendping n a) := by
  unfold sendping
  infer_instance

instance [Base R] [PlainTo R n] : Within R (sendsCmdout n msg) := by
  unfold sendsCmdout
  infer_instance

instance [Base R] [PlainTo R n] : Within R (sendLoginok n) := by
  unfold sendLoginok
  infer_instance

instance [Base R] [PlainTo R n] : Within R (userWhead n) := by
  unfold userWhead
  infer_instance

instance [Base R] [PlainTo R n] : Within R (userWline n a b i j k c v text) := by
  unfold userWline
  infer_instance

instance [Drops R] : Within R (pktservDisconnect n) := by
  unfold pktservDisconnect
  infer_instance

variable {m : Nat} {flag quiet : Bool}

instance [Posts R] : Within R (sStatusGroup m flag n cls msg) := by
  unfold sStatusGroup
  infer_instance

/-! ## §5 — `access.c` -/

instance [Base R] : Within R (valuser a b) := by
  unfold valuser
  infer_instance

instance [Base R] [PlainTo R n] [DbTo R "secure"] : Within R (setsecure n flag) := by
  unfold setsecure
  infer_instance

instance [Base R] [PlainTo R n] [∀ key, DbTo R key] : Within R (nickdelete n a) := by
  unfold nickdelete
  infer_instance

instance [Base R] [DbTo R "signon"] [DbTo R "signoff"] : Within R (nickwritetime n flag) := by
  unfold nickwritetime
  infer_instance

instance [Base R] [PlainTo R n] [DbTo R key] : Within R (nickchinfo n key a m msg) := by
  unfold nickchinfo
  infer_instance

instance [Base R] [PlainTo R n] [DbTo R "password"] [DbTo R "home"] : Within R (nickchpass n a b) :=
    by
  unfold nickchpass
  infer_instance

instance [Posts R] [∀ key, DbTo R key] : Within R (nickwritemsg n a b) := by
  unfold nickwritemsg
  infer_instance

instance [Base R] [DbTo R "nummsg"] : Within R (nickckmsg n) := by
  unfold nickckmsg
  infer_instance

instance [Base R] [PlainTo R n] [DbTo R "nummsg"] : Within R (mailNotice n) := by
  unfold mailNotice
  infer_instance

instance [Posts R] [∀ i, MissFit R i] [ModTo R n] : Within R (regainMods n) := by
  unfold regainMods
  infer_instance

instance [Base R] [PlainTo R n] : Within R (offerMods n) := by
  unfold offerMods
  infer_instance

instance [Base R] [PlainTo R n] : Within R (talkReport n i) := by
  unfold talkReport
  infer_instance

instance [Base R] [IdentTo R n] : Within R (setPassword n a) := by
  unfold setPassword
  infer_instance

instance [Base R] [PlainTo R n] [∀ key, DbTo R key] [RealTo R n registered] [RealTo R n []]
    [Within R (setPassword n (cutPassword a))] [Within R (regainMods n)] : Within R (nickwrite n a flag) := by
  unfold nickwrite
  infer_instance

instance [Base R] [PlainTo R n] : Within R (showRecord n a b) := by
  unfold showRecord
  infer_instance

instance [Base R] [PlainTo R n] : Within R (nicklookup n a) := by
  unfold nicklookup
  infer_instance

instance [Base R] [Within R (nickwritetime n true)] [IdentFit R n] [NickTo R n []] [RealTo R n []]
    [UGroupFit R n] [LoginTo R n .no] [UNeatAt R n] : Within R (clearUserItem n) := by
  unfold clearUserItem
  infer_instance

/-! ## §6 — `groups.c` and `users.c` -/

instance [Base R] [GOrderlyAt R i] [GNameFit R] [ModTo R (-1)] [MissFit R i] :
    Within R (clearGroupItem i) := by
  unfold clearGroupItem
  infer_instance

instance [Base R] [IdentFit R n] [NickTo R n (b.take maxNickLen)] [UGroupFit R n]
    [LoginTo R n lg] [UOpts R n] : Within R (fillUserEntry n a v b c text msg lg i j m) := by
  unfold fillUserEntry
  infer_instance

instance [Base R] [IdentFit R n] [NickTo R n (b.take maxNickLen)] [UGroupFit R n]
    [LoginTo R n lg] [UNeatAt R n] : Within R (fillUserEntry n a v b c text [] lg i j m) := by
  unfold fillUserEntry
  rw [List.take_nil]
  infer_instance

variable {vis : Visibility} {ctl : Control} {vol : Volume}

instance [Base R] [GSoundAt R i] [GNameTo R] [ModTo R j] :
    Within R (fillGroupEntry i a b vis ctl j vol) := by
  unfold fillGroupEntry
  infer_instance

/-! ## §7 — `s_group.c` -/

variable {allowed : String} {body : Flags → W Unit} {f : Flags}

instance [Base R] [PlainTo R n] [∀ f, Within R (body f)] :
    Within R (withFlags n allowed msg arg body) := by
  unfold withFlags
  split <;> infer_instance

instance [Posts R] [∀ k, GOptsAt R k] : Within R (cancelBody n f) := by
  unfold cancelBody
  infer_instance

instance [Posts R] [∀ f, Within R (cancelBody n f)] : Within R (sCancel n arg) := by
  unfold sCancel
  infer_instance

instance [Base R] [PlainTo R n] : Within R (addItem n a b) := by
  unfold addItem
  infer_instance

instance [Base R] [PlainTo R n] {names : List Bytes} :
    Within R (addNames n a flag b m names text) := by
  induction names generalizing m text with
  | nil =>
    unfold addNames
    infer_instance
  | cons x xs ih =>
    unfold addNames
    infer_instance

variable {l₁ l₂ : NamList}

instance [Base R] [PlainTo R n] : Within R (listTwo n a l₁ l₂) := by
  unfold listTwo
  infer_instance

instance [Base R] [PlainTo R n] : Within R (listInvites n i) := by
  unfold listInvites
  infer_instance

instance [Posts R] [∀ k, GTameAt R k] : Within R (inviteBody n f) := by
  unfold inviteBody
  infer_instance

instance [Posts R] [∀ f, Within R (inviteBody n f)] : Within R (sInvite n arg) := by
  unfold sInvite
  infer_instance

instance [Base R] [PlainTo R n] : Within R (resolveAt n m arg) := by
  induction m generalizing arg with
  | zero =>
    unfold resolveAt
    infer_instance
  | succ m ih =>
    unfold resolveAt
    infer_instance

instance [Base R] [GTameAt R i] [Within R (setGroupName i a)] [ModTo R n] : Within R (createGroup n i a vis) := by
  unfold createGroup
  infer_instance

instance [Posts R] : Within R (probe n i a) := by
  unfold probe
  infer_instance

instance [Posts R] [∀ k, GOrderlyAt R k] [UNeatAt R n] [UGroupTo R n] [GNameTo R] [ModTo R (-1)] [MissTo R] :
    Within R (moveTo n i j flag) := by
  unfold moveTo
  infer_instance

instance [Posts R] [∀ i j f, Within R (moveTo n i j f)] : Within R (joinGroup n i a flag) := by
  unfold joinGroup
  infer_instance

instance [Posts R] [∀ i j f, Within R (moveTo n i j f)]
    [∀ k a vis, Within R (createGroup n k (filtergroupname (parseTarget a).1) vis)] : Within R (enterGroup n arg flag) := by
  unfold enterGroup
  infer_instance

instance [Posts R] [∀ i j f, Within R (moveTo n i j f)]
    [∀ k a vis, Within R (createGroup n k (filtergroupname (parseTarget a).1) vis)] : Within R (sChange n arg flag) := by
  unfold sChange
  infer_instance

instance [Posts R] [∀ i j f, Within R (moveTo n i j f)]
    [∀ k a vis, Within R (createGroup n k (filtergroupname (parseTarget a).1) vis)] : Within R (bootTo n arg) := by
  unfold bootTo
  infer_instance

instance [Posts R] [∀ k, GTameAt R k] [∀ j, ModTo R j] : Within R (sPass n arg) := by
  unfold sPass
  infer_instance

omit [Env] in
/-- The groups for the booted and the idle have no moderator when they are created. -/
theorem createGroup_within [Base R] [GTameAt R i] [Within R (setGroupName i a)]
    (h : strcaseEq bootGroup a ∨ strcaseEq idleGroup a) : Within R (createGroup n i a vis) := by
  unfold createGroup
  by_cases hboot : strcaseEq bootGroup a
  · simp only [hboot, ↓reduceIte]
    infer_instance
  · simp only [hboot, h.resolve_left hboot, ↓reduceIte, Bool.false_eq_true]
    infer_instance

theorem bootTo_within [Posts R] [∀ k, GTameAt R k] [GNameFit R] [∀ i j f, Within R (moveTo n i j f)]
    (h : a = bootGroup ∨ a = idleGroup) : Within R (bootTo n a) := by
  have hresolve : resolveAt n (Env.maxUsers + 1) a = pure (some a) := by
    obtain rfl | rfl := h <;> rfl
  have hcreate (i : Int) (vis : Visibility) :
      Within R (createGroup n i (filtergroupname (parseTarget a).1) vis) := by
    apply createGroup_within
    obtain rfl | rfl := h
    · exact .inl (by decide)
    · exact .inr (by decide)
  have henter (flag : Bool) : Within R (enterGroup n a flag) := by
    unfold enterGroup
    infer_instance
  unfold bootTo sChange
  rw [hresolve, pure_bind]
  simp only [Option.isSome_some, ↓reduceIte, Option.getD_some]
  infer_instance

instance [Posts R] [∀ k, GTameAt R k] [GNameFit R] [∀ i j f, Within R (moveTo n i j f)] :
    Within R (bootTo n bootGroup) := bootTo_within (.inl rfl)

instance [Posts R] [∀ k, GTameAt R k] [GNameFit R] [∀ i j f, Within R (moveTo n i j f)] :
    Within R (bootTo n idleGroup) := bootTo_within (.inr rfl)

instance [Posts R] [∀ k, GOptsAt R k] [Within R (bootTo i bootGroup)] : Within R (bootUser n i arg text) := by
  unfold bootUser
  infer_instance

instance [Posts R] [∀ j text, Within R (bootUser n j arg text)] : Within R (sBoot n arg) := by
  have (dest : Int) (x : Except Bytes Bytes) : Within R (match x with
      | .error e => senderror n e
      | .ok text => bootUser n dest arg text) := by
    cases x <;> infer_instance
  unfold sBoot
  infer_instance

instance [Base R] [PlainTo R n] : Within R (dumpTable n) := by
  unfold dumpTable
  infer_instance

instance [Posts R] [∀ j, UGroupFit R j] [GNameFit R] : Within R (setName n i a) := by
  unfold setName
  infer_instance

instance [Posts R] [GTameAt R i] : Within R (setRestrict i) := by
  unfold setRestrict
  infer_instance

instance [Posts R] [GOrderlyAt R i] : Within R (setSize n i a) := by
  unfold setSize
  infer_instance

instance [Posts R] [GOrderlyAt R i] : Within R (setIdleboot n i a) := by
  unfold setIdleboot
  infer_instance

instance [Posts R] [GOptsAt R i] : Within R (setIdlebootMsg n i a) := by
  unfold setIdlebootMsg
  infer_instance

instance [Posts R] [GOrderlyAt R i] : Within R (setIdlemod n i a) := by
  unfold setIdlemod
  infer_instance

instance [Posts R] {g : GroupOpts → GroupOpts} [Within R (modGOpts i g)] : Within R (setAndSay n i g key) := by
  unfold setAndSay
  infer_instance

variable {opt : SetOpt}

/-- `SET_CONTROL`. -/
abbrev setControl (i : Int) : W Unit := modGOpts i fun o => clearInvites { o with control := .controlled }

section
variable [Posts R] [GOrderlyAt R i] [Within R (setRestrict i)] [∀ a, Within R (setIdlebootMsg n i a)]
  [∀ a, Within R (setName n i a)]

/-- One option. Only `SET_CONTROL` makes a group controlled. -/
theorem statusOpt_within (h : opt = .control → Within R (setControl i)) : Within R (statusOpt n i opt a) := by
  cases opt
  case control =>
    have := h rfl
    unfold statusOpt
    infer_instance
  all_goals
    unfold statusOpt
    infer_instance

/-- The loop does not get to `SET_CONTROL` in a group without a moderator. -/
theorem statusLoop_within (h : flag = true → Within R (setControl i)) : Within R (statusLoop n i flag m a) := by
  induction m generalizing a with
  | zero =>
    unfold statusLoop
    infer_instance
  | succ m ih =>
    unfold statusLoop
    by_cases hskip : (SetOpt.ofIndex (lookup (getword a) statusTable)).needsMod.isSome ∧ flag = false
    · simp only [if_pos hskip]
      infer_instance
    · have : Within R (statusOpt n i (SetOpt.ofIndex (lookup (getword a) statusTable)) a) := by
        refine statusOpt_within fun hopt => h ?_
        rw [hopt] at hskip
        simpa [SetOpt.needsMod] using hskip
      simp only [if_neg hskip]
      infer_instance

end

instance [Posts R] [GOrderlyAt R i] [Within R (setRestrict i)] [Within R (setControl i)]
    [∀ a, Within R (setIdlebootMsg n i a)] [∀ a, Within R (setName n i a)] :
    Within R (statusOpt n i opt a) := statusOpt_within fun _ => inferInstance

instance [Posts R] [GOrderlyAt R i] [Within R (setRestrict i)] [Within R (setControl i)]
    [∀ a, Within R (setIdlebootMsg n i a)] [∀ a, Within R (setName n i a)] :
    Within R (statusLoop n i flag m a) := statusLoop_within fun _ => inferInstance

instance [Base R] [PlainTo R n] : Within R (showStatus n) := by
  unfold showStatus
  infer_instance

instance [Posts R] [∀ k, GOrderlyAt R k] [∀ k, Within R (setRestrict k)] [∀ k, Within R (setControl k)]
    [∀ k a, Within R (setIdlebootMsg n k a)] [∀ j, UGroupFit R j] [GNameFit R] : Within R (sStatus n arg) := by
  unfold sStatus
  infer_instance

instance [Posts R] [∀ k, GOrderlyAt R k] : Within R (sTopic n arg) := by
  unfold sTopic
  infer_instance

instance [Posts R] [∀ j, OpensTo R j] : Within R (sSendGroup n text) := by
  unfold sSendGroup
  infer_instance

instance [Posts R] [∀ j, OpensTo R j] : Within R (sExclude n arg) := by
  unfold sExclude
  infer_instance

instance [Posts R] [GOrderlyAt R i] : Within R (talkDelete a i) := by
  unfold talkDelete
  infer_instance

instance [Posts R] [GTameAt R i] : Within R (talkClear n i flag quiet m) := by
  induction m with
  | zero =>
    unfold talkClear
    infer_instance
  | succ m ih =>
    unfold talkClear
    infer_instance

instance [Posts R] [GTameAt R i] : Within R (talkAdd n i f) := by
  unfold talkAdd
  infer_instance

instance [Posts R] [∀ k, GTameAt R k] : Within R (talkBody n f) := by
  unfold talkBody
  infer_instance

instance [Base R] [PlainTo R n] [∀ f, Within R (talkBody n f)] : Within R (sTalk n arg) := by
  unfold sTalk
  infer_instance

/-! ## §8 — `s_user.c` -/

variable {hl : HushList} {who : WhoFlags} {names : List Bytes}

instance [Base R] [PlainTo R n] : Within R (sHelp n) := by
  unfold sHelp
  infer_instance

instance [Base R] [PlainTo R n] [ULight R n] : Within R (toggleHush n hl a flag) := by
  unfold toggleHush
  infer_instance

instance [Base R] [PlainTo R n] : Within R (listHushed n) := by
  unfold listHushed
  infer_instance

instance [Base R] [PlainTo R n] [ULight R n] : Within R (hushBody n f) := by
  unfold hushBody
  infer_instance

instance [Base R] [PlainTo R n] [∀ f, Within R (hushBody n f)] : Within R (sHush n arg) := by
  unfold sHush
  infer_instance

instance [Base R] [PlainTo R n] [ULight R n] : Within R (notifyBody n f) := by
  unfold notifyBody
  infer_instance

instance [Base R] [PlainTo R n] [∀ f, Within R (notifyBody n f)] : Within R (sNotify n arg) := by
  unfold sNotify
  infer_instance

instance [Base R] [PlainTo R n] [∀ key, DbTo R key] [RealTo R n registered] [RealTo R n []]
    [Within R (regainMods n)] [∀ a, Within R (nicklookup (-n) a)] : Within R (nameStatus n) := by
  unfold nameStatus
  infer_instance

instance [Posts R] [Within R (nickwritetime n true)] [Within R (nameStatus n)]
    [NickTo R n (newName arg)] : Within R (sName n arg) := by
  unfold sName
  infer_instance

instance [Base R] [PlainTo R n] [UOpts R n] : Within R (sEchoback n arg) := by
  unfold sEchoback
  infer_instance

instance [Base R] [PlainTo R n] [UNeatAt R n] : Within R (sNobeep n arg) := by
  unfold sNobeep
  infer_instance

instance [Posts R] : Within R (sPing n arg) := by
  unfold sPing
  infer_instance

instance [Base R] [PlainTo R n] [UNeatAt R n] : Within R (sNoaway n) := by
  unfold sNoaway
  infer_instance

instance [Base R] [PlainTo R n] [UOpts R n] : Within R (sAway n arg) := by
  unfold sAway
  infer_instance

/-! ## §9 — listings and the administrator -/

instance [Base R] [PlainTo R n] : Within R (shortNames n i names text) := by
  induction names generalizing i text with
  | nil =>
    unfold shortNames
    infer_instance
  | cons x xs ih =>
    unfold shortNames
    infer_instance

instance [Base R] [PlainTo R n] : Within R (pgmShort n i) := by
  unfold pgmShort
  infer_instance

instance [Base R] [PlainTo R n] : Within R (pgmLong n i) := by
  unfold pgmLong
  infer_instance

instance [Base R] [PlainTo R n] : Within R (printGroupHeader n i) := by
  unfold printGroupHeader
  infer_instance

instance [Base R] [PlainTo R n] : Within R (doOne n who a) := by
  unfold doOne
  infer_instance

instance [Base R] [PlainTo R n] : Within R (doAll n who) := by
  unfold doAll
  infer_instance

instance [Base R] [PlainTo R n] : Within R (sWho n arg) := by
  unfold sWho
  infer_instance

instance [Base R] [PlainTo R n] : Within R (sMotd n) := by
  unfold sMotd
  infer_instance

instance [Base R] [PlainTo R n] : Within R (sNews n arg) := by
  unfold sNews
  infer_instance

instance [Base R] [PlainTo R n] : Within R (sInfo n arg) := by
  unfold sInfo
  infer_instance

instance [Base R] [PlainTo R n] : Within R (sShuttime n) := by
  unfold sShuttime
  infer_instance

instance [Base R] [PlainTo R n] : Within R (sVersion n) := by
  unfold sVersion
  infer_instance

instance [Base R] [PlainTo R n] : Within R (sServerStats n flag) := by
  unfold sServerStats
  infer_instance

instance [Posts R] : Within R (importAll cls msg) := by
  unfold importAll
  infer_instance

instance [Base R] [PlainTo R n] : Within R (notAuthorized n) := by
  unfold notAuthorized
  infer_instance

instance [Base R] [PlainTo R n] : Within R (sLog n arg) := by
  unfold sLog
  infer_instance

instance [Posts R] [Drops R] : Within R (sDrop n arg) := by
  unfold sDrop
  infer_instance

instance [Posts R] : Within R (sShutdown arg) := by
  unfold sShutdown
  infer_instance

instance [Posts R] : Within R (sRestart n flag) := by
  unfold sRestart
  infer_instance

instance [Posts R] : Within R (sWall arg) := by
  unfold sWall
  infer_instance

/-! ## §10 — `msgs.c` over the world -/

variable {auto : AutoCmd}

instance [Base R] [UNeatAt R n] : Within R (stamp n) := by
  unfold stamp
  infer_instance

instance [Posts R] : Within R (beepRefused i n) := by
  unfold beepRefused
  infer_instance

instance [Light R] : Within R (awayHandle i j) := by
  unfold awayHandle
  infer_instance

instance [Posts R] : Within R (pester i j) := by
  unfold pester
  infer_instance

instance [Light R] : Within R (echoAndAway i j a) := by
  unfold echoAndAway
  infer_instance

variable {tag usage : String}

instance [Base R] [PlainTo R n] [DbTo R key] : Within R (setInfo n key m tag usage arg) := by
  unfold setInfo
  infer_instance

instance [Posts R] [∀ key, DbTo R key] [RealTo R n registered] [RealTo R n []]
    [∀ a, Within R (setPassword n (cutPassword a))] [Within R (regainMods n)] : Within R (autoArg n arg auto) := by
  cases auto <;> (unfold autoArg; infer_instance)

instance [Base R] : Within R (countOpen n) := by
  unfold countOpen
  infer_instance

instance [Posts R] : Within R (spamNotice n) := by
  unfold spamNotice
  infer_instance

instance [Posts R] [∀ j, OpensTo R j] : Within R (openBody n text) := by
  unfold openBody
  infer_instance

instance [Base R] [PlainTo R n] : Within R (loginGroup n a) := by
  unfold loginGroup
  infer_instance

instance [Base R] [UNeatAt R n] [LoginTo R n .pending] : Within R (startSession n) := by
  unfold startSession
  infer_instance

instance [Base R] [PlainTo R n] [∀ key, DbTo R key] [RealTo R n registered]
    [Within R (regainMods n)] : Within R (autoRegister n) := by
  unfold autoRegister
  infer_instance

instance [Base R] [PlainTo R n] [∀ key, DbTo R key] [RealTo R n registered] [RealTo R n []]
    [∀ a, Within R (setPassword n (cutPassword a))] [Within R (regainMods n)] [∀ a, Within R (nicklookup (-n) a)] :
    Within R (authenticate n) := by
  unfold authenticate
  infer_instance

instance [Base R] [PlainTo R n] : Within R (reportGroups n) := by
  unfold reportGroups
  infer_instance

instance [Posts R] : Within R (notifyOn n) := by
  unfold notifyOn
  infer_instance

instance [Posts R] [UNeatAt R n] [Within R (authenticate n)] [∀ k, MissFit R k] [ModTo R n]
    [∀ i j f, Within R (moveTo n i j f)] [LoginTo R n .pending] [LoginTo R n .complete]
    [∀ k a vis, Within R (createGroup n k (filtergroupname (parseTarget a).1) vis)] : Within R (enterServer n arg) := by
  unfold enterServer
  infer_instance

section
variable [Posts R] [UNeatAt R n] [Within R (authenticate n)] [IdentFit R n] [∀ k, MissFit R k] [ModTo R n]
  [UGroupFit R n] [∀ i j f, Within R (moveTo n i j f)] [LoginTo R n .pending] [LoginTo R n .complete]
  [NickTo R n ((filternickname b).take maxNickLen)] [LoginTo R n .no]
  [∀ k a vis, Within R (createGroup n k (filtergroupname (parseTarget a).1) vis)]

instance : Within R (acceptLogin n a b c v m) := by
  unfold acceptLogin
  infer_instance

instance : Within R (passAccess n a b c v m) := by
  unfold passAccess
  infer_instance

instance : Within R (login n a b c v) := by
  have (x : Except Bytes Nat) : Within R (match x with
      | .error e => do
          senderror n e
          pure (-1)
      | .ok perms => passAccess n a b c v perms) := by
    cases x <;> infer_instance
  unfold login
  infer_instance

end

instance [Posts R] : Within R (pong n) := by
  unfold pong
  infer_instance

instance [Base R] [PlainTo R n] : Within R (refuse n) := by
  unfold refuse
  infer_instance

instance [Base R] [PlainTo R n] : Within R (badType n a) := by
  unfold badType
  split <;> infer_instance

/-! ## §11 — `ipcf.c` -/

variable {remote : Option Bytes}

instance [Posts R] [Drops R] [UNeatAt R n] [IdentTo R n] : Within R (sNewUser n flag remote) := by
  unfold sNewUser
  infer_instance

instance [Posts R] [MissAt R i] : Within R (idleMod i) := by
  unfold idleMod
  infer_instance

instance [Posts R] [∀ j, ModAt R i j] [MissFit R i] : Within R (passTimeout i) := by
  unfold passTimeout
  infer_instance

instance [Posts R] [∀ k, ModAt R j k] : Within R (idleBootMod i j) := by
  unfold idleBootMod
  infer_instance

instance [Posts R] [∀ j, Within R (idleBootMod i j)] [Within R (bootTo i idleGroup)] :
    Within R (idleBoot i) := by
  unfold idleBoot
  infer_instance

instance [Posts R] : Within R (warnShutdown i j msg) := by
  unfold warnShutdown
  infer_instance

instance [Base R] [Drops R] : Within R (killMarked i) := by
  unfold killMarked
  infer_instance

instance [Posts R] [Drops R] [∀ i, Within R (idleMod i)] [∀ i, Within R (passTimeout i)]
    [∀ i, Within R (idleBoot i)] : Within R (sDidpoll) := by
  unfold sDidpoll
  infer_instance

instance [Posts R] : Within R (notifyOff n) := by
  unfold notifyOff
  infer_instance

instance [Posts R] [∀ j, ModAt R i j] [∀ k, Within R (setMissing i a k)] : Within R (lostMod i flag a) := by
  unfold lostMod
  infer_instance

instance [Posts R] [∀ i, Within R (lostMod i flag a)] : Within R (lostMods n flag a m) := by
  induction m with
  | zero =>
    unfold lostMods
    infer_instance
  | succ m ih =>
    unfold lostMods
    infer_instance

instance [Posts R] [GOrderlyAt R i] [GNameFit R] [ModTo R (-1)] [MissFit R i] : Within R (leaveGroup i a text) := by
  unfold leaveGroup
  infer_instance

instance [Posts R] [∀ k, GOrderlyAt R k] [UNeatAt R n] [∀ j, ModTo R j] [∀ k, MissFit R k] [GNameFit R]
    [Within R (nickwritetime n true)] [IdentFit R n] [NickTo R n []] [RealTo R n []] [UGroupFit R n]
    [LoginTo R n .no] : Within R (sLostUser n) := by
  unfold sLostUser
  infer_instance

/-! ## §12 — the daemon -/

/-- A relation between worlds, for the daemons around them. -/
def OnWorld (R : World → World → Prop) (d d' : Daemon) : Prop := R d.w d'.w

instance [IsPreorder World R] : IsPreorder Daemon (OnWorld R) where
  refl d := refl_of R d.w
  trans _ _ _ h₁ h₂ := trans_of R h₁ h₂

instance {α : Type} {x : W α} [Within R x] : Within (OnWorld R) (onWorld x) where
  within d := Within.within (x := x) d.w

instance [IsPreorder World R] : Within (OnWorld R) (getField m) where
  within d := refl_of R d.w

instance [IsPreorder World R] : Within (OnWorld R) (setField m a) where
  within d := refl_of R d.w

instance [IsPreorder World R] : Within (OnWorld R) (split a) where
  within d := refl_of R d.w

section
variable {cmd : Int → Bytes → M Unit} [∀ src text, Within (OnWorld R) (cmd src text)]

instance [Posts R] [Unspoken a] : Within (OnWorld R) (deliver cmd i j a) := by
  unfold deliver
  infer_instance

instance [Posts R] : Within (OnWorld R) (sendperson cmd i j a) := by
  unfold sendperson
  infer_instance

instance [Posts R] : Within (OnWorld R) (sendPersonStored cmd i a b) := by
  unfold sendPersonStored
  infer_instance

instance [Light R] : Within (OnWorld R) (autoBeep cmd i) := by
  unfold autoBeep
  infer_instance

instance [Light R] : Within (OnWorld R) (sendbeep cmd i j) := by
  unfold sendbeep
  infer_instance

instance [Light R] : Within (OnWorld R) (sPersonal cmd i a) := by
  unfold sPersonal
  infer_instance

instance [Light R] : Within (OnWorld R) (sBeep cmd i a) := by
  unfold sBeep
  infer_instance

instance [Posts R] [∀ key, DbTo R key] : Within (OnWorld R) (readOne cmd n a i) := by
  unfold readOne
  infer_instance

instance [Posts R] [∀ key, DbTo R key] : Within (OnWorld R) (nickreadmsg cmd n) := by
  unfold nickreadmsg
  infer_instance

instance [Posts R] [∀ key, DbTo R key] : Within (OnWorld R) (autoPlain cmd n auto) := by
  cases auto <;> (unfold autoPlain; infer_instance)

instance [Light R] [∀ key, DbTo R key] [RealTo R n registered] [RealTo R n []]
    [∀ a, Within R (setPassword n (cutPassword a))] [Within R (regainMods n)] : Within (OnWorld R) (sAuto cmd n) := by
  unfold sAuto
  infer_instance

end

variable {h : Bytes → W Unit} {x : M Unit}

instance [Base R] [∀ a, Within R (h a)] : Within (OnWorld R) (withArg m h) := by
  unfold withArg
  infer_instance

instance [Base R] [PlainTo R n] [Within (OnWorld R) x] : Within (OnWorld R) (asAdmin n x) := by
  unfold asAdmin
  infer_instance

section
variable {cmd : Int → Bytes → M Unit} [∀ src text, Within (OnWorld R) (cmd src text)]

/-- A command other than those that change names and registrations, name a moderator, or store what is
used as a format later on. -/
theorem runCommand_light [Soft R] [∀ j, OpensTo R j] [∀ k, GOrderlyAt R k] [∀ j, UGroupFit R j] [GNameFit R]
    [∀ i j f, Within R (moveTo n i j f)] [∀ f, Within R (inviteBody n f)]
    [∀ k a vis, Within R (createGroup n k (filtergroupname (parseTarget a).1) vis)]
    [∀ f, Within R (cancelBody n f)] [∀ j a text, Within R (bootUser n j a text)] [∀ k, Within R (setRestrict k)]
    [∀ k, Within R (setControl k)] [∀ k a, Within R (setIdlebootMsg n k a)] [∀ f, Within R (talkBody n f)]
    [∀ f, Within R (hushBody n f)] [∀ f, Within R (notifyBody n f)] {cd : Command}
    (h : cd = .pass ∨ cd = .name ∨ cd = .other ∨ cd = .away ∨ cd = .echoback →
      Within (OnWorld R) (runCommand cmd n m cd)) :
    Within (OnWorld R) (runCommand cmd n m cd) := by
  by_cases hs : cd = .pass ∨ cd = .name ∨ cd = .other ∨ cd = .away ∨ cd = .echoback
  · exact h hs
  · cases cd <;> first
      | (simp at hs; done)
      | (unfold runCommand; infer_instance)

/-- A command other than the three that change names and registrations or name a moderator. -/
theorem runCommand_within [Calm R] [∀ j, UGroupTo R j] [GNameTo R] [MissTo R] [ModTo R n]
    [ModTo R (-1)] {cd : Command}
    (h : cd = .pass ∨ cd = .name ∨ cd = .other → Within (OnWorld R) (runCommand cmd n m cd)) :
    Within (OnWorld R) (runCommand cmd n m cd) := by
  apply runCommand_light
  rintro (hpass | hname | hother | rfl | rfl)
  · exact h (.inl hpass)
  · exact h (.inr (.inl hname))
  · exact h (.inr (.inr hother))
  · unfold runCommand
    infer_instance
  · unfold runCommand
    infer_instance

instance [Light R] [∀ j, OpensTo R j] [Within R (bootTo n (str "ICB"))] :
    Within (OnWorld R) (openmsg n a) := by
  unfold openmsg
  infer_instance

instance [Light R] [∀ j, OpensTo R j] [Within R (bootTo n (str "ICB"))]
    [∀ k text, Within (OnWorld R) (cmdmsg k n text)] : Within (OnWorld R) (otherCase n a) := by
  unfold otherCase
  infer_instance

end

/-- Everything a command may write: all but the login state. -/
class Commands (R : World → World → Prop) : Prop extends Calm R, GNameTo R, MissTo R where
  toDb : ∀ key, DbTo R key
  toNick : ∀ n v, NickTo R n v
  toReal : ∀ n v, RealTo R n v
  toIdent : ∀ n, IdentTo R n
  toUGroup : ∀ n, UGroupTo R n
  toMod : ∀ v, ModTo R v

section
variable [Commands R]

instance : DbTo R key := Commands.toDb key
instance : NickTo R n v := Commands.toNick n v
instance : RealTo R n v := Commands.toReal n v
instance : IdentTo R n := Commands.toIdent n
instance : UGroupTo R n := Commands.toUGroup n
instance : ModTo R n := Commands.toMod n

instance {cmd : Int → Bytes → M Unit} [∀ src text, Within (OnWorld R) (cmd src text)] :
    Within (OnWorld R) (cmdmsgWith cmd n a) := by
  have (k : Nat) (cd : Command) : Within (OnWorld R) (runCommand cmd n k cd) := by
    apply runCommand_within
    rintro (rfl | rfl | rfl) <;> (unfold runCommand; infer_instance)
  unfold cmdmsgWith
  infer_instance

instance : Within (OnWorld R) (cmdmsg m n a) := by
  induction m generalizing n a with
  | zero =>
    unfold cmdmsg
    infer_instance
  | succ m ih =>
    unfold cmdmsg
    infer_instance

end

/-- Everything a callback may write, the options of groups and what is not neat in those of users apart. -/
class Callbacks (R : World → World → Prop) : Prop extends Soft R, GNameTo R, MissTo R where
  toOpens : ∀ n, OpensTo R n
  toDb : ∀ key, DbTo R key
  toNick : ∀ n v, NickTo R n v
  toReal : ∀ n v, RealTo R n v
  toIdent : ∀ n, IdentTo R n
  toUGroup : ∀ n, UGroupTo R n
  toLogin : ∀ n lg, LoginTo R n lg
  toMod : ∀ v, ModTo R v

section
variable [Callbacks R]

instance : OpensTo R n := Callbacks.toOpens n
instance : DbTo R key := Callbacks.toDb key
instance : NickTo R n v := Callbacks.toNick n v
instance : RealTo R n v := Callbacks.toReal n v
instance : IdentTo R n := Callbacks.toIdent n
instance : UGroupTo R n := Callbacks.toUGroup n
instance : LoginTo R n lg := Callbacks.toLogin n lg
instance : ModTo R n := Callbacks.toMod n

variable [∀ i, GOrderlyAt R i] [∀ n i a vis, Within R (createGroup n i a vis)]
  [∀ n f, Within R (inviteBody n f)] [∀ n f, Within R (cancelBody n f)] [∀ n a, Within R (sPass n a)]
  [∀ n j a text, Within R (bootUser n j a text)] [∀ i, Within R (setRestrict i)] [∀ i, Within R (setControl i)]
  [∀ n i a, Within R (setIdlebootMsg n i a)] [∀ n f, Within R (talkBody n f)] [∀ n f, Within R (hushBody n f)]
  [∀ n f, Within R (notifyBody n f)]
  [∀ n a, Within R (sEchoback n a)] [∀ n a, Within R (sAway n a)]

instance {cmd : Int → Bytes → M Unit} [∀ src text, Within (OnWorld R) (cmd src text)] :
    Within (OnWorld R) (cmdmsgWith cmd n a) := by
  have (k : Nat) (cd : Command) : Within (OnWorld R) (runCommand cmd n k cd) := by
    apply runCommand_light
    rintro (rfl | rfl | rfl | rfl | rfl) <;> (unfold runCommand; infer_instance)
  unfold cmdmsgWith
  infer_instance

instance : Within (OnWorld R) (cmdmsg m n a) := by
  induction m generalizing n a with
  | zero =>
    unfold cmdmsg
    infer_instance
  | succ m ih =>
    unfold cmdmsg
    infer_instance

instance : Within (OnWorld R) (loginmsg n a) := by
  unfold loginmsg
  infer_instance

instance : Within (OnWorld R) (loginCase n a) := by
  unfold loginCase
  infer_instance

instance : Within (OnWorld R) (dispatch n a) := by
  unfold dispatch
  infer_instance

/-- A callback whose program stays within the relation wherever its handlers do. -/
instance (e : Event) : Within (OnWorld R) e.prog := by
  cases e <;> (unfold Event.prog; infer_instance)

end

/-! ## §13 — nobody's identity is touched -/

/-- Packets, options and globals apart, nothing has happened. -/
structure Calmly (w w' : World) : Prop where
  users : ∀ i, (w'.uTab i).toUserId = (w.uTab i).toUserId
  groups : ∀ i, (w'.gTab i).toGroupId = (w.gTab i).toGroupId
  db : w'.db = w.db
  sys : w'.sys = w.sys

instance : Calm Calmly where
  refl _ := ⟨fun _ => rfl, fun _ => rfl, rfl, rfl⟩
  trans _ _ _ h₁ h₂ := ⟨fun i => (h₂.users i).trans (h₁.users i),
    fun i => (h₂.groups i).trans (h₁.groups i), h₂.db.trans h₁.db, h₂.sys.trans h₁.sys⟩
  misc _ _ := ⟨fun _ => rfl, fun _ => rfl, rfl, rfl⟩
  drops _ _ := ⟨fun _ => rfl, fun _ => rfl, rfl, rfl⟩
  gopts w i f := by
    refine ⟨fun _ => rfl, fun j => ?_, rfl, rfl⟩
    by_cases h : j = i <;> simp [World.modG, Function.update, h]
  toSends _ := ⟨fun _ _ => ⟨fun _ => rfl, fun _ => rfl, rfl, rfl⟩⟩
  toUOpts n := by
    refine ⟨fun w f => ⟨fun j => ?_, fun _ => rfl, rfl, rfl⟩⟩
    by_cases h : j = n <;> simp [World.modU, Function.update, h]

/-- Packets, users' options and globals apart, nothing has happened. -/
structure Stilly (w w' : World) : Prop where
  users : ∀ i, (w'.uTab i).toUserId = (w.uTab i).toUserId
  groups : w'.gTab = w.gTab
  db : w'.db = w.db
  sys : w'.sys = w.sys

instance : Base Stilly where
  refl _ := ⟨fun _ => rfl, rfl, rfl, rfl⟩
  trans _ _ _ h₁ h₂ := ⟨fun i => (h₂.users i).trans (h₁.users i), h₂.groups.trans h₁.groups,
    h₂.db.trans h₁.db, h₂.sys.trans h₁.sys⟩
  misc _ _ := ⟨fun _ => rfl, rfl, rfl, rfl⟩

instance : SendsTo Stilly n := ⟨fun _ _ => ⟨fun _ => rfl, rfl, rfl, rfl⟩⟩

instance : Still Stilly where
  drops _ _ := ⟨fun _ => rfl, rfl, rfl, rfl⟩
  toPlain _ := inferInstance
  toUOpts n := by
    refine ⟨fun w f => ⟨fun j => ?_, rfl, rfl, rfl⟩⟩
    by_cases h : j = n <;> simp [World.modU, Function.update, h]

/-- Two relations at once. -/
def Both (R S : World → World → Prop) (w w' : World) : Prop := R w w' ∧ S w w'

section
variable {S : World → World → Prop}

instance [Base R] [Base S] : Base (Both R S) where
  refl w := ⟨refl_of R w, refl_of S w⟩
  trans _ _ _ h₁ h₂ := ⟨trans_of R h₁.1 h₂.1, trans_of S h₁.2 h₂.2⟩
  misc w m := ⟨Base.misc w m, Base.misc w m⟩

instance [SendsTo R n] [SendsTo S n] : SendsTo (Both R S) n :=
  ⟨fun w c => ⟨SendsTo.sends w c, SendsTo.sends w c⟩⟩

instance [Soft R] [Soft S] : Soft (Both R S) where
  drops w n := ⟨Drops.drops w n, Drops.drops w n⟩
  toPlain _ := ⟨fun w c hc => ⟨PlainTo.sends w c hc, PlainTo.sends w c hc⟩⟩
  toUNeat _ := ⟨fun w f hf => ⟨UNeatAt.uneat w f hf, UNeatAt.uneat w f hf⟩⟩

instance [Still R] [Still S] : Still (Both R S) where
  drops w n := ⟨Drops.drops w n, Drops.drops w n⟩
  toPlain _ := ⟨fun w c hc => ⟨PlainTo.sends w c hc, PlainTo.sends w c hc⟩⟩
  toUOpts _ := ⟨fun w f => ⟨UOpts.uopts w f, UOpts.uopts w f⟩⟩

instance [GOptsAt R i] [GOptsAt S i] : GOptsAt (Both R S) i :=
  ⟨fun w f => ⟨GOptsAt.gopts w f, GOptsAt.gopts w f⟩⟩

instance [Calm R] [Calm S] : Calm (Both R S) where
  drops w n := ⟨Drops.drops w n, Drops.drops w n⟩
  gopts w i f := ⟨GOpts.gopts w i f, GOpts.gopts w i f⟩
  toSends _ := inferInstance
  toUOpts _ := ⟨fun w f => ⟨UOpts.uopts w f, UOpts.uopts w f⟩⟩

end

section
variable {w w' : World}

omit [Env] in
theorem Stilly.calmly (h : Stilly w w') : Calmly w w' :=
  ⟨h.users, fun i => by rw [h.groups], h.db, h.sys⟩

omit [Env] in
theorem Calmly.nickname (h : Calmly w w') (i : Int) : (w'.uTab i).nickname = (w.uTab i).nickname :=
  congrArg UserId.nickname (h.users i)

omit [Env] in
theorem Calmly.login (h : Calmly w w') (i : Int) : (w'.uTab i).login = (w.uTab i).login :=
  congrArg UserId.login (h.users i)

omit [Env] in
theorem Calmly.mod (h : Calmly w w') (i : Int) : (w'.gTab i).mod = (w.gTab i).mod :=
  congrArg GroupId.mod (h.groups i)

theorem Calmly.findUser (h : Calmly w w') (name : Bytes) : findUser w' name = findUser w name := by
  simp only [Server.findUser, h.nickname]

omit [Env] in
theorem Calmly.findGroup (h : Calmly w w') (name : Bytes) : findGroup w' name = findGroup w name := by
  simp only [Server.findGroup, congrArg GroupId.name (h.groups _)]

omit [Env] in
theorem Calmly.groupOf (h : Calmly w w') (n : Int) : groupOf w' n = groupOf w n := by
  simp only [Server.groupOf, h.findGroup, congrArg UserId.group (h.users n)]

theorem Calmly.checkAuth (h : Calmly w w') (n : Int) : checkAuth w' n = checkAuth w n := by
  simp only [Server.checkAuth, h.nickname, congrArg UserId.password (h.users n)]

end

/-! ## §14 — runs -/

/-- From the empty tables to the tables at start-up. -/
theorem startup_rel [Soft R] [∀ key, DbTo R key] [IdentTo R nickserv] [UGroupTo R nickserv]
    [NickTo R nickserv ((str "Server").take maxNickLen)] [LoginTo R nickserv .complete]
    [RealTo R nickserv registered]
    [Within R (fillGroupEntry 0 (str "ICB") (str "...here to serve you!") .supersecret .restricted nickserv .quiet)]
    (sys : Sys) (db : Bytes → Option Bytes) :
    R { db := db, sys := sys, stats := { startTime := sys.now } } (startup sys db) :=
  Within.within (x := (do
    fillUserEntry nickserv (str "server") Env.thishost (str "Server") [] (str "ICB") [] .complete 0 1 0
    modUOpts nickserv fun o => { o with tOn := sys.now, tRecv := sys.now }
    setRealname nickserv registered
    fillGroupEntry 0 (str "ICB") (str "...here to serve you!") .supersecret .restricted nickserv .quiet
    nickwritetime nickserv false : W Unit)) _

/-- What holds at start-up and outlives every event that is enabled, satisfies the condition and comes
back, holds in every state reached. -/
theorem Reachable.invariant {P : Host → Sys → Event → Prop} {I : Host → Prop}
    (hstart : ∀ sys db, I { w := startup sys db })
    (hstep : ∀ h sys e, I h → P h sys e → e.enabled h → (h.after sys e).w.live → I (h.after sys e))
    {h : Host} (hr : Reachable P h) : I h := by
  induction hr with
  | start sys db => exact hstart sys db
  | step _ hp hs hl ih =>
    obtain ⟨-, he, rfl⟩ := hs
    exact hstep _ _ _ ih hp he hl

/-- An invariant of the world that every callback keeps. -/
theorem Reachable.keep {P : Host → Sys → Event → Prop} {I : World → Prop}
    (hprog : ∀ e : Event, Within (OnWorld (Keep I)) e.prog) (hsys : ∀ w sys, I w → I { w with sys := sys })
    (hstart : ∀ sys db, I (startup sys db)) {h : Host} (hr : Reachable P h) : I h.w :=
  hr.invariant hstart fun h sys e hI _ _ _ => (hprog e).within (h.toDaemon.at sys) (hsys _ _ hI)

/-- Only slots of the user table are open. -/
theorem opened_step {h : Host} {sys : Sys} {e : Event} (hopen : ∀ n, h.opened n → inUsers n)
    (he : e.enabled h) (n : Int) (hn : (h.after sys e).opened n) : inUsers n := by
  cases e with
  | connect k =>
    by_cases hkn : n = k
    · exact hkn ▸ he.1
    · exact hopen n (by simpa [Host.after, Event.opens, Function.update_of_ne hkn] using hn)
  | packet | didpoll => exact hopen n hn
  | lost k =>
    have hkn : n ≠ k := by
      rintro rfl
      simp [Host.after, Event.opens] at hn
    exact hopen n (by simpa [Host.after, Event.opens, Function.update_of_ne hkn] using hn)

/-! ## §15 — invariants of the tables -/

section
variable {α β : Type}

/-- An invariant `J` of what `πU` and `πG` show of the entries. -/
def ViewInv (πU : User → α) (πG : Group → β) (J : (Int → α) → (Int → β) → Prop) (w w' : World) :
    Prop :=
  J (fun i => πU (w.uTab i)) (fun i => πG (w.gTab i)) →
    J (fun i => πU (w'.uTab i)) (fun i => πG (w'.gTab i))

variable {πU : User → α} {πG : Group → β} {J : (Int → α) → (Int → β) → Prop}

instance : Base (ViewInv πU πG J) where
  refl _ := id
  trans _ _ _ h₁ h₂ := h₂ ∘ h₁
  misc _ _ := id

instance : SendsTo (ViewInv πU πG J) n := ⟨fun _ _ => id⟩
instance : Drops (ViewInv πU πG J) := ⟨fun _ _ => id⟩
instance : DbTo (ViewInv πU πG J) key := ⟨fun _ _ _ => id⟩

omit [Env] in
/-- What a write to user `n` shows. -/
theorem view_modU (πU : User → α) (w : World) (f : User → User) :
    (fun i => πU ((w.modU n f).uTab i)) =
      Function.update (fun i => πU (w.uTab i)) n (πU (f (w.uTab n))) := by
  funext i
  by_cases h : i = n <;> simp [World.modU, Function.update, h]

omit [Env] in
/-- What a write to group `i` shows. -/
theorem view_modG (πG : Group → β) (w : World) (f : Group → Group) :
    (fun j => πG ((w.modG i f).gTab j)) =
      Function.update (fun j => πG (w.gTab j)) i (πG (f (w.gTab i))) := by
  funext j
  by_cases h : j = i <;> simp [World.modG, Function.update, h]

omit [Env] in
/-- A write to a user that the invariant allows. -/
theorem ViewInv.writeU {w : World} {f : User → User}
    (h : J (fun i => πU (w.uTab i)) (fun i => πG (w.gTab i)) →
      J (Function.update (fun i => πU (w.uTab i)) n (πU (f (w.uTab n)))) fun i => πG (w.gTab i)) :
    ViewInv πU πG J w (w.modU n f) := by
  intro hJ
  rw [view_modU]
  exact h hJ

omit [Env] in
/-- A write to a group that the invariant allows. -/
theorem ViewInv.writeG {w : World} {f : Group → Group}
    (h : J (fun i => πU (w.uTab i)) (fun i => πG (w.gTab i)) →
      J (fun i => πU (w.uTab i)) (Function.update (fun i => πG (w.gTab i)) i (πG (f (w.gTab i))))) :
    ViewInv πU πG J w (w.modG i f) := by
  intro hJ
  rw [view_modG]
  exact h hJ

omit [Env] in
/-- A write to a user that the view does not show. -/
theorem ViewInv.modU {w : World} {f : User → User} (hf : ∀ u, πU (f u) = πU u) :
    ViewInv πU πG J w (w.modU n f) := by
  intro h
  rw [view_modU, hf, Function.update_eq_self]
  exact h

omit [Env] in
/-- A write to a group that the view does not show. -/
theorem ViewInv.modG {w : World} {f : Group → Group} (hf : ∀ g, πG (f g) = πG g) :
    ViewInv πU πG J w (w.modG i f) := by
  intro h
  rw [view_modG, hf, Function.update_eq_self]
  exact h

end

end Icbd.Server
