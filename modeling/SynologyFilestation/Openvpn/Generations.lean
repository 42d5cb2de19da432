import SynologyFilestation.Library.Generations
import SynologyFilestation.Library.Transition
import SynologyFilestation.Openvpn.DataLink
import SynologyFilestation.Openvpn.Session

/-!
Key generations over a run of a session.

The channel knows which generation carries traffic and which is negotiated; the
session has a connection for the one and perhaps one for the other. The two are
brought together by `Followed`: the session follows the channel.
-/

namespace SynologyFilestation.Openvpn

open Core Library

def KeyState.toGeneration (state : KeyState) : Generation KeyId := ⟨state.keyId, state.generation⟩

namespace ControlChannel

def toGenerations (c : ControlChannel) : Generations KeyId where
  primary := c.primary.toGeneration
  pending := c.pending.map KeyState.toGeneration
  superseded := c.superseded
  count := c.generations

variable {c c' : ControlChannel} {keyId : KeyId} {state state' : KeyState} {packet : ControlPacket}
  {hmac : Hmac} {datagram : Bytes} {now : ℕ}

/-- A generation that only its windows change of. -/
theorem toGenerations_withState (h : c.stateOf keyId = some state)
    (hsame : state'.toGeneration = state.toGeneration) :
    (c.withState keyId state').toGenerations = c.toGenerations := by
  unfold stateOf at h
  unfold withState
  split at h
  case isTrue hprimary =>
    obtain rfl := Option.some.inj h
    rw [if_pos hprimary, toGenerations, hsame]
    rfl
  case isFalse hprimary =>
    rw [if_neg hprimary]
    split at h
    case h_1 pending hpending =>
      split at h
      case isTrue =>
        obtain rfl := Option.some.inj h
        rw [toGenerations, toGenerations, hpending, Option.map_some, hsame]
        rfl
      case isFalse => cases h
    case h_2 => cases h

@[simp] theorem toGenerations_sendControl (payload : Bytes) :
    (c.sendControl keyId payload).2.toGenerations = c.toGenerations := by
  unfold sendControl
  cases hstate : c.stateOf keyId with
  | none => rfl
  | some state => exact toGenerations_withState hstate rfl

theorem toGenerations_pollKeys {keyIds : List KeyId} :
    (pollKeys keyIds c).2.toGenerations = c.toGenerations := by
  induction keyIds generalizing c with
  | nil => rfl
  | cons keyId keyIds ih =>
      rw [pollKeys]
      split
      case h_1 => rfl
      case h_2 state hstate =>
        split
        case h_1 => exact toGenerations_withState hstate rfl
        case h_2 => exact ih.trans (toGenerations_withState hstate rfl)

@[simp] theorem toGenerations_pollControl : c.pollControl.2.toGenerations = c.toGenerations :=
  toGenerations_pollKeys

theorem toGenerations_nextPacket (c : ControlChannel) (keyId : KeyId) (now : ℕ) :
    (c.nextPacket keyId now).2.toGenerations = c.toGenerations := by
  unfold nextPacket
  cases hstate : c.stateOf keyId with
  | none => rfl
  | some state =>
      dsimp only
      split
      · rfl
      · exact toGenerations_withState hstate rfl

theorem toGenerations_transmitFrom {netTime : UInt32} {keyIds : List KeyId} :
    (transmitFrom hmac now netTime keyIds c).2.toGenerations = c.toGenerations := by
  induction keyIds generalizing c with
  | nil => rfl
  | cons keyId keyIds ih =>
      rw [transmitFrom]
      have hnext := c.toGenerations_nextPacket keyId now
      split
      case h_1 heq =>
        rw [heq] at hnext
        exact hnext
      case h_2 heq =>
        rw [heq] at hnext
        exact ih.trans hnext

theorem toGenerations_pollTransmit (c : ControlChannel) (hmac : Hmac) (now : ℕ) (netTime : UInt32) :
    (c.pollTransmit hmac now netTime).2.toGenerations = c.toGenerations :=
  toGenerations_transmitFrom

@[simp] theorem toGenerations_drainInto (outbox : Outbox) :
    (outbox.drainInto c keyId).2.toGenerations = c.toGenerations :=
  drain_invariant (P := fun _ c' => c'.toGenerations = c.toGenerations) rfl
    (fun _ _ _ h _ hsend => (congrArg (toGenerations ·.2) hsend.symm).trans
      (toGenerations_sendControl _) |>.trans h)
    fun _ _ _ h hsend => (congrArg (toGenerations ·.2) hsend.symm).trans
      (toGenerations_sendControl _) |>.trans h

theorem starts_iff : c.starts packet = true ↔
    packet.opcode = .controlSoftResetV1 ∧ c.toGenerations.Starts packet.keyId := by
  unfold starts Generations.Starts pendingKeyId toGenerations
  cases c.pending with
  | none => simp [KeyState.toGeneration, and_assoc]
  | some pending => simp [KeyState.toGeneration, and_assoc]

theorem toGenerations_adopt (h : c.starts packet = true) :
    (c.adopt packet).toGenerations = c.toGenerations.adopt packet.keyId := by
  rw [adopt, if_pos h]
  cases hpending : c.pending <;> simp [toGenerations, Generations.adopt, pendingKeyId, hpending,
    KeyState.toGeneration, KeyState.new]

theorem toGenerations_deliver (c : ControlChannel) :
    (c.deliver packet).2.toGenerations = c.toGenerations := by
  unfold deliver
  cases hstate : c.stateOf packet.keyId with
  | none => rfl
  | some state => exact toGenerations_withState hstate rfl

theorem starting_interpret (c : ControlChannel) (packet : ControlPacket) :
    c.toGenerations.Starting (c.interpret packet).2.toGenerations := by
  unfold interpret
  split
  case h_1 => exact .same
  case h_2 =>
    split
    case h_1 => exact .same
    case h_2 =>
      rw [toGenerations_deliver]
      by_cases hstarts : c.starts packet = true
      · have hadopt : ((c.adopt packet).identify packet).toGenerations =
            c.toGenerations.adopt packet.keyId := toGenerations_adopt hstarts
        rw [hadopt]
        exact .adopted (starts_iff.mp hstarts).2
      · rw [adopt, if_neg hstarts]
        exact .same

/-- **What a datagram does to the generations**: nothing, or a new one starts. -/
theorem starting_handle (c : ControlChannel) (hmac : Hmac) (datagram : Bytes) (now : ℕ) :
    c.toGenerations.Starting (c.handle hmac datagram now).2.toGenerations := by
  unfold handle
  split
  case h_1 => exact .same
  case h_2 packet header _ =>
    dsimp only
    split
    · exact .same
    · exact starting_interpret
        { c with replay := (c.replay.accept header.packetId header.netTime).2 } packet

@[simp] theorem remoteSession_promote : c.promote.remoteSession = c.remoteSession := by
  unfold promote
  split <;> rfl

@[simp] theorem localSession_promote : c.promote.localSession = c.localSession := by
  unfold promote
  split <;> rfl

@[simp] theorem pending_promote : c.promote.pending = none := by
  unfold promote
  split
  case h_1 => rfl
  case h_2 hpending => exact hpending

theorem toGenerations_promote (h : c.pending = some state) :
    c.promote.toGenerations = c.toGenerations.replace state.toGeneration := by
  rw [promote, h]
  rfl

end ControlChannel

/-! ### The session follows -/

/-- The keys of the first exchange are there. -/
def Phase.exchanged : Phase → Bool
  | tls | awaitingKeys => false
  | established | awaitingPush | ready => true

/-- What a tunnel was opened with. -/
def DataChannel.settings (d : DataChannel) : DataKeys × Option PeerId × KeyId :=
  (d.keys, d.peerId, d.keyId)

theorem DataChannel.settings_encryptWithIv (d : DataChannel) (cipher : Cipher) (hmac : Hmac)
    (payload : Bytes) (iv : {iv : Bytes // iv.length = 16}) :
    (d.encryptWithIv cipher hmac payload iv).2.settings = d.settings := by
  unfold encryptWithIv
  split <;> rfl

theorem DataChannel.settings_decrypt (d : DataChannel) (cipher : Cipher) (hmac : Hmac)
    (datagram : Bytes) : (d.decrypt cipher hmac datagram).2.settings = d.settings := by
  unfold decrypt
  split <;> rfl

variable {p : Primitives}

namespace Renegotiation

def toGeneration (r : Renegotiation p) : Generation KeyId := ⟨r.keyId, r.tls.generation⟩

/-- Its handshake goes on, and it is for the same generation. -/
theorem toGeneration_advance (r : Renegotiation p) (credentials : Option Credentials) :
    (andThen (r.sendKeyMaterial credentials) drainPlaintext).2.toGeneration = r.toGeneration := by
  have hsend : (r.sendKeyMaterial credentials).2.toGeneration = r.toGeneration := by
    unfold sendKeyMaterial
    split
    case isTrue => rfl
    case isFalse =>
      split
      case h_1 => rfl
      case h_2 => split <;> rfl
  refine andThen_invariant (P := fun r' : Renegotiation p => r'.toGeneration = r.toGeneration)
    hsend ?_
  intro r' hr'
  rw [hr'] at hsend
  exact hsend

end Renegotiation

namespace Session

def followed (s : Session p) : Followed KeyId where
  generations := s.channel.toGenerations
  kept := s.tls.generation
  candidate := s.renegotiation.map Renegotiation.toGeneration

/-- The connection that carries traffic is the primary generation's, and so is the tunnel. -/
structure Consistent (s : Session p) : Prop where
  sound : s.followed.Sound
  keyed {d : DataChannel} : s.data = some d → d.keyId = s.channel.primary.keyId
  ready : s.data.isSome → s.phase = .ready

/-- No generation takes over: what belongs to the one in charge stays. -/
structure Unpromoted (s t : Session p) : Prop where
  primary : t.channel.primary.toGeneration = s.channel.primary.toGeneration
  superseded : s.channel.superseded ⊆ t.channel.superseded
  pending {next : Generation KeyId} : s.channel.toGenerations.pending = some next →
    t.channel.toGenerations.pending = some next ∨ next.key ∈ t.channel.superseded
  connection : t.tls.generation = s.tls.generation
  keys : s.phase.exchanged → t.phase.exchanged ∧ t.keys = s.keys
  tunnel {d : DataChannel} : s.data = some d → t.data.map DataChannel.settings = some d.settings

/-- A generation takes over: a later one, with its connection, the keys of its exchange, and
a tunnel if there was one. -/
structure Promoted (s t : Session p) : Prop where
  later : s.channel.primary.generation < t.channel.primary.generation
  fresh : t.channel.primary.keyId ∉ s.channel.superseded
  connection : t.tls.generation = t.channel.primary.generation
  keys : ∃ server, t.channel.remoteSession = some server ∧
    t.keys = some (keyExpansion p.prf t.source t.channel.localSession server)
  tunnel : s.data.isSome → ∃ expansion keys, t.keys = some expansion ∧
    DataKeys.forClient expansion = .ok keys ∧
      t.data = some (.new keys (t.push.bind fun reply => reply.peerId) t.channel.primary.keyId)
  settled : t.channel.pending = none ∧ t.channel.superseded = []

variable {s t u : Session p}

theorem Unpromoted.trans (h : s.Unpromoted t) (h' : t.Unpromoted u) : s.Unpromoted u where
  primary := h'.primary.trans h.primary
  superseded := List.Subset.trans h.superseded h'.superseded
  pending hnext := (h.pending hnext).elim h'.pending fun hgiven => .inr (h'.superseded hgiven)
  connection := h'.connection.trans h.connection
  keys hphase :=
    have hmiddle := h.keys hphase
    have hlast := h'.keys hmiddle.1
    ⟨hlast.1, hlast.2.trans hmiddle.2⟩
  tunnel hd := by
    obtain ⟨d', hd', hsettings⟩ := Option.map_eq_some_iff.mp (h.tunnel hd)
    rw [h'.tunnel hd', hsettings]

theorem Unpromoted.promoted (h : s.Unpromoted t) (h' : t.Promoted u) : s.Promoted u :=
  { h' with
    later := (congrArg Generation.number h.primary).symm.trans_lt h'.later
    fresh := fun hmem => h'.fresh (h.superseded hmem)
    tunnel := fun hdata => by
      obtain ⟨d, hd⟩ := Option.isSome_iff_exists.mp hdata
      obtain ⟨d', hd', -⟩ := Option.map_eq_some_iff.mp (h.tunnel hd)
      exact h'.tunnel (Option.isSome_of_eq_some hd') }

/-- What a step that promotes nothing leaves behind. -/
structure Keeps (s t : Session p) : Prop where
  consistent : t.Consistent
  unpromoted : s.Unpromoted t

theorem Keeps.trans (h : s.Keeps t) (h' : t.Keeps u) : s.Keeps u :=
  ⟨h'.consistent, h.unpromoted.trans h'.unpromoted⟩

theorem Keeps.andThen {done : Except Error Unit × Session p}
    {next : Session p → Except Error Unit × Session p} (hdone : s.Keeps done.2)
    (hnext : ∀ m : Session p, m.Consistent → m.Keeps (next m).2) :
    s.Keeps (andThen done next).2 :=
  andThen_invariant (P := s.Keeps) hdone fun m hm => by
    rw [hm] at hdone
    exact hdone.trans (hnext m hdone.consistent)

theorem Consistent.no_data (h : s.Consistent) (hphase : s.phase ≠ .ready) : s.data = none := by
  rcases hdata : s.data with _ | d
  · rfl
  · exact absurd (h.ready (Option.isSome_of_eq_some hdata)) hphase

/-- A step that does not touch the generations, nor what a tunnel was opened with. -/
theorem Consistent.keeps (h : s.Consistent) (hfollowed : t.followed = s.followed)
    (hphase : s.phase = .ready → t.phase = .ready)
    (hkeys : s.phase.exchanged → t.phase.exchanged ∧ t.keys = s.keys)
    (hdata : t.data.map DataChannel.settings = s.data.map DataChannel.settings) : s.Keeps t := by
  have hgenerations : t.channel.toGenerations = s.channel.toGenerations :=
    congrArg Followed.generations hfollowed
  have hprimary : t.channel.primary.toGeneration = s.channel.primary.toGeneration :=
    congrArg Generations.primary hgenerations
  have hsuperseded : t.channel.superseded = s.channel.superseded :=
    congrArg Generations.superseded hgenerations
  refine ⟨⟨hfollowed ▸ h.sound, ?_, ?_⟩, hprimary, hsuperseded ▸ List.Subset.refl _, ?_,
    congrArg Followed.kept hfollowed, hkeys, ?_⟩
  · intro d' hd'
    rw [hd'] at hdata
    obtain ⟨d, hd, hsettings⟩ := Option.map_eq_some_iff.mp hdata.symm
    calc
      d'.keyId = d.keyId := (congrArg (·.2.2) hsettings).symm
      _ = s.channel.primary.keyId := h.keyed hd
      _ = t.channel.primary.keyId := (congrArg Generation.key hprimary).symm
  · intro hsome
    rw [← Option.isSome_map (f := DataChannel.settings), hdata, Option.isSome_map] at hsome
    exact hphase (h.ready hsome)
  · exact fun hnext => .inl ((congrArg Generations.pending hgenerations).trans hnext)
  · intro d hd
    rw [hdata, hd]
    rfl

theorem Consistent.same (h : s.Consistent) (hfollowed : t.followed = s.followed)
    (hphase : t.phase = s.phase) (hkeys : t.keys = s.keys)
    (hdata : t.data.map DataChannel.settings = s.data.map DataChannel.settings) : s.Keeps t :=
  h.keeps hfollowed hphase.trans (fun hexchanged => ⟨hphase ▸ hexchanged, hkeys⟩) hdata

theorem Consistent.refl (h : s.Consistent) : s.Keeps s :=
  h.same rfl rfl rfl rfl

/-- What the generations do not show changes afterwards. -/
theorem Keeps.same (h : s.Keeps t) (hfollowed : u.followed = t.followed)
    (hphase : u.phase = t.phase) (hkeys : u.keys = t.keys)
    (hdata : u.data.map DataChannel.settings = t.data.map DataChannel.settings) : s.Keeps u :=
  h.trans (h.consistent.same hfollowed hphase hkeys hdata)

/-- A tunnel that carries packets stays what it was opened as. -/
theorem Consistent.tunnel (h : s.Consistent) {d d' : DataChannel} (hdata : s.data = some d)
    (hsettings : d'.settings = d.settings) : s.Keeps { s with data := some d' } := by
  refine h.same rfl rfl rfl ?_
  rw [hdata]
  exact congrArg some hsettings

/-! ### One call -/

/-- A tunnel is opened under the key id of the primary generation. -/
theorem Consistent.openTunnel (h : s.Consistent) (hdata : s.data = none)
    (hphase : s.phase = .ready) : s.Keeps s.openTunnel.2 := by
  have hsame := h.refl
  unfold Session.openTunnel
  split
  case h_1 => exact hsame
  case h_2 =>
    split
    case h_1 => exact hsame
    case h_2 =>
      refine ⟨⟨h.sound, ?_, fun _ => hphase⟩, hsame.unpromoted.primary, List.Subset.refl _,
        .inl, rfl, fun hkeys => ⟨hkeys, rfl⟩, fun hd => ?_⟩
      · rintro _ ⟨⟩
        rfl
      · rw [hdata] at hd
        cases hd

/-- A record changes what a connection holds, and nothing else. -/
theorem feedRecord_frame (s : Session p) (keyId : KeyId) (record : Bytes) :
    (s.feedRecord keyId record).2.followed = s.followed ∧ ∃ tls renegotiation,
      (s.feedRecord keyId record).2 = { s with tls := tls, renegotiation := renegotiation } := by
  unfold Session.feedRecord
  split
  case h_1 pending hpending =>
    split
    case isTrue =>
      refine ⟨?_, _, _, rfl⟩
      rw [followed, followed, hpending]
      rfl
    case isFalse => exact ⟨rfl, _, _, rfl⟩
  case h_2 => exact ⟨rfl, _, _, rfl⟩

theorem Consistent.feedRecord (h : s.Consistent) (keyId : KeyId) (record : Bytes) :
    s.Keeps (s.feedRecord keyId record).2 := by
  obtain ⟨hfollowed, tls, renegotiation, heq⟩ := s.feedRecord_frame keyId record
  rw [heq] at hfollowed ⊢
  exact h.same hfollowed rfl rfl rfl

theorem Consistent.channel (h : s.Consistent) {channel : ControlChannel}
    (hsame : channel.toGenerations = s.channel.toGenerations) :
    s.Keeps { s with channel := channel } := by
  refine h.same ?_ rfl rfl rfl
  rw [followed, hsame]
  rfl

theorem Consistent.feedRecords {n : ℕ} (h : s.Consistent) : s.Keeps (feedRecords n s).2 := by
  induction n generalizing s with
  | zero => exact h.same rfl rfl rfl rfl
  | succ n ih =>
      rw [Session.feedRecords]
      have hpoll := s.channel.toGenerations_pollControl
      split
      case h_1 channel heq =>
        rw [heq] at hpoll
        exact h.channel hpoll
      case h_2 keyId record channel heq =>
        rw [heq] at hpoll
        have hchannel := h.channel hpoll
        have hfed := hchannel.consistent.feedRecord keyId record
        refine andThen_invariant (P := s.Keeps) (hchannel.trans hfed) fun t ht => ?_
        rw [ht] at hfed
        exact (hchannel.trans hfed).trans (ih hfed.consistent)

/-- The generation of a soft reset may start. -/
theorem Consistent.starting (h : s.Consistent) {channel : ControlChannel}
    (hstarting : s.channel.toGenerations.Starting channel.toGenerations) :
    s.Keeps { s with channel := channel } := by
  have hprimary : channel.primary.toGeneration = s.channel.primary.toGeneration :=
    hstarting.primary
  refine ⟨⟨h.sound.starting hstarting, ?_, h.ready⟩, hprimary, hstarting.superseded,
    hstarting.pending, rfl, fun hkeys => ⟨hkeys, rfl⟩, fun hd => ?_⟩
  · intro d hd
    exact (h.keyed hd).trans (congrArg Generation.key hprimary).symm
  · rw [hd]
    rfl

theorem Consistent.receive (h : s.Consistent) (datagram : Bytes) (now : ℕ) :
    s.Keeps (s.receive datagram now).2 := by
  unfold Session.receive
  split
  case h_1 => exact h.same rfl rfl rfl rfl
  case h_2 =>
    have hstarting := s.channel.starting_handle p.hmac datagram now
    split
    case h_1 heq =>
      rw [heq] at hstarting
      exact h.starting hstarting
    case h_2 heq =>
      rw [heq] at hstarting
      have hchannel := h.starting hstarting
      exact hchannel.trans hchannel.consistent.feedRecords

theorem Consistent.sendOurKeyMaterial (h : s.Consistent) : s.Keeps s.sendOurKeyMaterial.2 := by
  unfold Session.sendOurKeyMaterial
  split
  case isTrue => exact h.same rfl rfl rfl rfl
  case isFalse hready =>
    split
    case h_1 => exact h.same rfl rfl rfl rfl
    case h_2 =>
      split
      case h_1 => exact h.same rfl rfl rfl rfl
      case h_2 =>
        have htls : s.phase = .tls := by
          by_contra hphase
          exact hready (by simp [hphase])
        refine h.keeps rfl (fun hphase => ?_) (fun hkeys => ?_) rfl
        · rw [htls] at hphase
          cases hphase
        · rw [htls] at hkeys
          cases hkeys

theorem Consistent.drainPlaintext (h : s.Consistent) : s.Keeps s.drainPlaintext.2 :=
  h.same rfl rfl rfl rfl

theorem Consistent.takePushReply (h : s.Consistent) (hphase : s.phase ≠ .ready) (text : Bytes) :
    s.Keeps (s.takePushReply text).2 := by
  have hsame := h.refl
  have hdata := h.no_data hphase
  unfold Session.takePushReply
  split
  case h_1 => exact hsame
  case h_2 =>
    split
    case h_1 => exact hsame
    case h_2 reply _ =>
      split
      case isTrue => exact hsame
      case isFalse =>
        split
        case isTrue => exact hsame
        case isFalse =>
          have hready : s.Keeps { s with push := some reply, phase := .ready } :=
            h.keeps rfl (fun _ => rfl) (fun _ => ⟨rfl, rfl⟩) rfl
          exact hready.trans (hready.consistent.openTunnel hdata rfl)

theorem Consistent.receivePushReply (h : s.Consistent) : s.Keeps s.receivePushReply.2 := by
  have hsame := h.refl
  unfold Session.receivePushReply
  split
  case isTrue => exact hsame
  case isFalse hawaiting =>
    have hphase : s.phase ≠ .ready := by
      intro hready
      rw [hready] at hawaiting
      exact hawaiting rfl
    split
    case h_1 => exact hsame
    case h_2 => exact hsame
    case h_3 => exact h.same rfl rfl rfl rfl
    case h_4 text used _ =>
      have hread : s.Keeps { s with inbound := s.inbound.drop used } :=
        h.same rfl rfl rfl rfl
      exact hread.trans (hread.consistent.takePushReply hphase text)

theorem Consistent.receiveTheirKeyMaterial (h : s.Consistent) :
    s.Keeps s.receiveTheirKeyMaterial.2 := by
  have hsame := h.refl
  unfold Session.receiveTheirKeyMaterial
  split
  case isTrue => exact hsame
  case isFalse hawaiting =>
    have hphase : s.phase ≠ .ready := by
      intro hready
      rw [hready] at hawaiting
      exact hawaiting nofun
    split
    case h_1 => exact hsame
    case h_2 => exact hsame
    case h_3 => exact h.same rfl rfl rfl rfl
    case h_4 reply used _ =>
      dsimp only
      split
      case h_1 => exact h.same rfl rfl rfl rfl
      case h_2 server _ =>
        have hkeyed : s.Keeps { s with
            source := s.source.answeredBy reply
            keys := some
              (keyExpansion p.prf (s.source.answeredBy reply) s.channel.localSession server)
            inbound := s.inbound.drop used
            phase := .awaitingPush } := by
          refine h.keeps rfl (fun hready => absurd hready hphase) (fun hkeys => ?_) rfl
          rw [not_not.mp hawaiting] at hkeys
          cases hkeys
        exact hkeyed.trans hkeyed.consistent.receivePushReply

theorem Consistent.beginRenegotiation (h : s.Consistent) (fresh : Fresh p) :
    s.Keeps (s.beginRenegotiation fresh).2 := by
  have hsame := h.refl
  unfold Session.beginRenegotiation
  split
  case h_1 => exact hsame
  case h_2 state hpending =>
    split
    case isTrue => exact hsame
    case isFalse =>
      split
      case h_1 => exact hsame
      case h_2 =>
        refine ⟨⟨?_, h.keyed, h.ready⟩, { hsame.unpromoted with }⟩
        have hfollow := h.sound.follow
        rw [followed, ControlChannel.toGenerations, hpending] at hfollow
        rw [followed, ControlChannel.toGenerations, hpending]
        exact hfollow

/-- When it succeeds, the renegotiation is for the pending generation. -/
theorem Consistent.beginRenegotiation_inStep (h : s.Consistent) {fresh : Fresh p}
    (hok : s.beginRenegotiation fresh = (.ok (), t)) : t.followed.InStep := by
  unfold Session.beginRenegotiation at hok
  split at hok
  case h_1 hpending =>
    obtain ⟨-, rfl⟩ := Prod.mk.inj hok
    have hnone : s.followed.generations.pending = none := congrArg (Option.map _) hpending
    exact (h.sound.candidate_none hnone).trans hnone.symm
  case h_2 state hpending =>
    split at hok
    case isTrue hkey =>
      obtain ⟨-, rfl⟩ := Prod.mk.inj hok
      obtain ⟨r, hr, hkeyId⟩ := Option.map_eq_some_iff.mp hkey
      have hsome : s.followed.generations.pending = some state.toGeneration :=
        congrArg (Option.map _) hpending
      have hcandidate : s.followed.candidate = some r.toGeneration := congrArg (Option.map _) hr
      have heq : r.toGeneration = state.toGeneration :=
        h.sound.eq_of_key hcandidate hsome hkeyId
      exact (hcandidate.trans (congrArg some heq)).trans hsome.symm
    case isFalse =>
      split at hok
      case h_1 => cases hok
      case h_2 =>
        obtain ⟨-, rfl⟩ := Prod.mk.inj hok
        exact (congrArg (Option.map KeyState.toGeneration) hpending).symm

/-- What a call may do that does not fail before its last part. -/
inductive Ends (s t : Session p) : Prop
  | kept (h : s.Keeps t)
  | promoted (consistent : t.Consistent) (h : s.Promoted t)

/-- The tunnel of a new generation is always opened. -/
theorem openTunnel_eq {expansion : Bytes} (hkeys : s.keys = some expansion)
    (hlength : expansion.length = 256) : ∃ keys, DataKeys.forClient expansion = .ok keys ∧
      s.openTunnel = (.ok (), { s with
        data := some
          (.new keys (s.push.bind fun reply => reply.peerId) s.channel.primary.keyId) }) := by
  obtain ⟨keys, hclient⟩ := DataKeys.exists_forClient hlength
  refine ⟨keys, hclient, ?_⟩
  rw [openTunnel, hkeys]
  simp only [hclient]

/-- **A generation takes over with all that belongs to it.** -/
theorem Consistent.takeOver (h : s.Consistent) (hstep : s.followed.InStep)
    {r r' : Renegotiation p} (hr : s.renegotiation = some r)
    (hsame : r'.toGeneration = r.toGeneration) (reply : ServerKeyMethod2) (used : ℕ) :
    s.Ends (s.takeOver r' reply used).2 := by
  have hcandidate : s.followed.candidate = some r'.toGeneration :=
    (congrArg (Option.map Renegotiation.toGeneration) hr).trans (congrArg some hsame.symm)
  unfold Session.takeOver
  dsimp only
  split
  case h_1 => exact .kept (h.same (congrArg (Followed.mk _ _) hcandidate.symm) rfl rfl rfl)
  case h_2 server hserver =>
    obtain ⟨state, hpending, hstate⟩ :=
      Option.map_eq_some_iff.mp (hstep.symm.trans hcandidate)
    have hgenerations := ControlChannel.toGenerations_promote hpending
    rw [hstate] at hgenerations
    have hprimary : s.channel.promote.primary.toGeneration = r'.toGeneration :=
      congrArg Generations.primary hgenerations
    have hnumber : s.channel.promote.primary.generation = r'.tls.generation :=
      congrArg Generation.number hprimary
    have hsound : Followed.Sound
        ⟨s.channel.promote.toGenerations, r'.tls.generation,
          (none : Option (Generation KeyId))⟩ := by
      rw [hgenerations]
      exact h.sound.replace hstep hcandidate
    have hlater : s.channel.primary.generation < s.channel.promote.primary.generation := by
      rw [hnumber]
      exact (h.sound.consistent.later (hstep.symm.trans hcandidate)).1
    have hfresh : s.channel.promote.primary.keyId ∉ s.channel.superseded := by
      rw [show s.channel.promote.primary.keyId = r'.keyId from congrArg Generation.key hprimary]
      exact h.sound.consistent.fresh (hstep.symm.trans hcandidate)
    have hsettled : s.channel.promote.pending = none ∧ s.channel.promote.superseded = [] :=
      ⟨ControlChannel.pending_promote, congrArg Generations.superseded hgenerations⟩
    have hremote : s.channel.promote.remoteSession = some server := by
      rw [ControlChannel.remoteSession_promote, hserver]
    split
    case isTrue hdata =>
      obtain ⟨keys, hclient, hopen⟩ := openTunnel_eq (s := { s with
        renegotiation := none
        channel := s.channel.promote
        tls := r'.tls
        outbox := r'.outbox
        source := r'.source.answeredBy reply
        inbound := r'.inbound.drop used
        keys := some (keyExpansion p.prf (r'.source.answeredBy reply) s.channel.localSession server)
        previousData := s.data
        data := none }) rfl (length_keyExpansion ..)
      rw [hopen]
      refine .promoted ⟨hsound, ?_, fun _ => h.ready hdata⟩
        ⟨hlater, hfresh, hnumber.symm, ⟨server, hremote, ?_⟩, fun _ => ⟨_, keys, rfl, hclient, rfl⟩,
          hsettled⟩
      · rintro _ ⟨⟩
        rfl
      · rw [ControlChannel.localSession_promote]
    case isFalse hdata =>
      refine .promoted ⟨hsound, nofun, nofun⟩
        ⟨hlater, hfresh, hnumber.symm, ⟨server, hremote, ?_⟩, fun hsome => absurd hsome hdata,
          hsettled⟩
      rw [ControlChannel.localSession_promote]

theorem Consistent.advanceRenegotiation (h : s.Consistent) (hstep : s.followed.InStep) :
    s.Ends s.advanceRenegotiation.2 := by
  unfold Session.advanceRenegotiation
  split
  case h_1 => exact .kept (h.same rfl rfl rfl rfl)
  case h_2 r hr =>
    have hsame := r.toGeneration_advance s.credentials
    -- Whatever was read, the renegotiation is still the one it was.
    have hkept {r' : Renegotiation p} (hr' : r'.toGeneration = r.toGeneration) :
        s.Keeps { s with renegotiation := some r' } := by
      refine h.same ?_ rfl rfl rfl
      rw [followed, followed, hr, Option.map_some, Option.map_some, hr']
    split
    case h_1 heq =>
      rw [heq] at hsame
      exact .kept (hkept hsame)
    case h_2 heq =>
      rw [heq] at hsame
      split
      case h_1 => exact .kept (hkept hsame)
      case h_2 => exact .kept (hkept hsame)
      case h_3 => exact .kept (hkept hsame)
      case h_4 reply used _ => exact h.takeOver hstep hr hsame reply used

theorem Ends.after (h : s.Keeps t) (h' : t.Ends u) : s.Ends u := by
  cases h' with
  | kept h' => exact .kept (h.trans h')
  | promoted hconsistent h' => exact .promoted hconsistent (h.unpromoted.promoted h')

/-- All that is done before the new generation has its turn. -/
theorem Consistent.exchange (h : s.Consistent) :
    s.Keeps (andThen (andThen (andThen s.sendOurKeyMaterial Session.drainPlaintext)
      Session.receiveTheirKeyMaterial) Session.receivePushReply).2 :=
  ((h.sendOurKeyMaterial.andThen fun _ => Consistent.drainPlaintext).andThen
    fun _ => Consistent.receiveTheirKeyMaterial).andThen fun _ => Consistent.receivePushReply

theorem Consistent.process (h : s.Consistent) (fresh : Fresh p) : s.Ends (s.process fresh).2 := by
  have hbegin := h.exchange.andThen fun _ hm => Consistent.beginRenegotiation hm fresh
  refine andThen_invariant (P := s.Ends) (.kept hbegin) fun t ht => ?_
  obtain ⟨m, hm, hok⟩ := andThen_eq_ok.mp ht
  have hexchange := h.exchange
  rw [hm] at hexchange
  rw [ht] at hbegin
  exact .after hbegin
    (hbegin.consistent.advanceRenegotiation (hexchange.consistent.beginRenegotiation_inStep hok))

theorem Consistent.handle (h : s.Consistent) (datagram : Bytes) (now : ℕ) (fresh : Fresh p) :
    s.Ends (s.handle datagram now fresh).2 := by
  have hreceive := h.receive datagram now
  refine andThen_invariant (P := s.Ends) (.kept hreceive) fun t ht => ?_
  rw [ht] at hreceive
  exact .after hreceive (hreceive.consistent.process fresh)

theorem Consistent.resendPushRequest (h : s.Consistent) (now : ℕ) :
    s.Keeps (s.resendPushRequest now).2 := by
  have hsame := h.refl
  unfold Session.resendPushRequest
  split
  · exact hsame
  · split
    · exact hsame
    · split
      · exact hsame
      · unfold sendPushRequest
        split <;> exact h.same rfl rfl rfl rfl

theorem Consistent.flushPrimary (h : s.Consistent) : s.Keeps s.flushPrimary :=
  h.same (congrArg (Followed.mk · _ _) (ControlChannel.toGenerations_drainInto _)) rfl rfl rfl

theorem Consistent.flushRenegotiation (h : s.Consistent) : s.Keeps s.flushRenegotiation := by
  unfold Session.flushRenegotiation
  split
  case h_1 => exact h.same rfl rfl rfl rfl
  case h_2 r hr =>
    refine h.same ?_ rfl rfl rfl
    rw [followed, followed, hr]
    exact congrArg (Followed.mk · _ _) (ControlChannel.toGenerations_drainInto _)

theorem Consistent.pollKeepalive (h : s.Consistent) (now : ℕ)
    (iv : {iv : Bytes // iv.length = 16}) : s.Keeps (s.pollKeepalive now iv).2 := by
  have hsame := h.refl
  unfold Session.pollKeepalive
  split
  case h_1 => exact hsame
  case h_2 =>
    split
    · exact hsame
    · split
      case h_1 => exact hsame
      case h_2 data hdata =>
        have hsettings := data.settings_encryptWithIv p.cipher p.hmac pingPayload iv
        split
        case h_1 heq =>
          rw [heq] at hsettings
          exact h.tunnel hdata hsettings
        case h_2 heq =>
          rw [heq] at hsettings
          exact (h.tunnel hdata hsettings).same rfl rfl rfl rfl

theorem Consistent.pollTransmit (h : s.Consistent) (now : ℕ) (netTime : UInt32)
    (iv : {iv : Bytes // iv.length = 16}) : s.Keeps (s.pollTransmit now netTime iv).2 := by
  unfold Session.pollTransmit
  split
  case isTrue => exact h.same rfl rfl rfl rfl
  case isFalse =>
    have hresend := h.resendPushRequest now
    split
    case h_1 heq =>
      rw [heq] at hresend
      exact hresend.same rfl rfl rfl rfl
    case h_2 t heq =>
      rw [heq] at hresend
      have hprimary := hresend.consistent.flushPrimary
      have hflushed := (hresend.trans hprimary).trans hprimary.consistent.flushRenegotiation
      have hsent := t.flushPrimary.flushRenegotiation.channel.toGenerations_pollTransmit
        p.hmac now netTime
      dsimp only
      split
      case h_1 heq =>
        rw [heq] at hsent
        have hchannel := hflushed.consistent.channel hsent
        exact (hflushed.trans hchannel).same rfl rfl rfl rfl
      case h_2 heq =>
        rw [heq] at hsent
        have hchannel := hflushed.consistent.channel hsent
        exact (hflushed.trans hchannel).trans (hchannel.consistent.pollKeepalive now iv)

theorem Consistent.sendPayload (h : s.Consistent) (now : ℕ) (payload : Bytes)
    (iv : {iv : Bytes // iv.length = 16}) : s.Keeps (s.sendPayload now payload iv).2 := by
  unfold Session.sendPayload
  split
  case h_1 => exact h.same rfl rfl rfl rfl
  case h_2 data hdata =>
    have hsettings := data.settings_encryptWithIv p.cipher p.hmac payload iv
    split
    case h_1 heq =>
      rw [heq] at hsettings
      exact h.tunnel hdata hsettings
    case h_2 heq =>
      rw [heq] at hsettings
      exact (h.tunnel hdata hsettings).same rfl rfl rfl rfl

theorem Consistent.receivePayload (h : s.Consistent) (datagram : Bytes) :
    s.Keeps (s.receivePayload datagram).2 := by
  unfold Session.receivePayload
  split
  case h_1 => exact h.same rfl rfl rfl rfl
  case h_2 data hdata =>
    have hsettings := data.settings_decrypt p.cipher p.hmac datagram
    split
    case h_1 heq =>
      rw [heq] at hsettings
      exact (h.tunnel hdata hsettings).same rfl rfl rfl rfl
    case h_2 heq =>
      rw [heq] at hsettings
      have htunnel := h.tunnel hdata hsettings
      split
      case h_1 => exact htunnel
      case h_2 => exact htunnel.same rfl rfl rfl rfl
    case h_3 heq =>
      rw [heq] at hsettings
      exact h.tunnel hdata hsettings

end Session

/-! ### Runs -/

/-- What is done with a session. -/
inductive SessionEvent (p : Primitives)
  | handle (datagram : Bytes) (now : ℕ) (fresh : Fresh p)
  | pollTransmit (now : ℕ) (netTime : UInt32) (iv : {iv : Bytes // iv.length = 16})
  | sendPayload (now : ℕ) (payload : Bytes) (iv : {iv : Bytes // iv.length = 16})
  | receivePayload (datagram : Bytes)

namespace Session

def after (s : Session p) : SessionEvent p → Session p
  | .handle datagram now fresh => (s.handle datagram now fresh).2
  | .pollTransmit now netTime iv => (s.pollTransmit now netTime iv).2
  | .sendPayload now payload iv => (s.sendPayload now payload iv).2
  | .receivePayload datagram => (s.receivePayload datagram).2

/-- Anything may be done with a session at any time. -/
def Step (s : Session p) (event : SessionEvent p) (t : Session p) : Prop := t = s.after event

variable {s t init : Session p} {event : SessionEvent p}

theorem Consistent.step (h : s.Consistent) (hstep : s.Step event t) : s.Ends t := by
  subst hstep
  cases event with
  | handle datagram now fresh => exact h.handle datagram now fresh
  | pollTransmit now netTime iv => exact .kept (h.pollTransmit now netTime iv)
  | sendPayload now payload iv => exact .kept (h.sendPayload now payload iv)
  | receivePayload datagram => exact .kept (h.receivePayload datagram)

theorem Ends.consistent (h : s.Ends t) : t.Consistent := by
  cases h with
  | kept h => exact h.consistent
  | promoted h => exact h

/-- A session begins with a generation of its own and no other. -/
theorem Consistent.new {auth : TlsAuth} {localSession : SessionId} {tlsTimeout : ℕ}
    {credentials : Option Credentials} {peerTimeout : Option ℕ} {fresh : Fresh p}
    (h : Session.new auth localSession tlsTimeout credentials peerTimeout fresh = .ok init) :
    init.Consistent := by
  unfold Session.new at h
  split at h
  case h_1 => cases h
  case h_2 =>
    obtain rfl := Except.ok.inj h
    exact ⟨⟨⟨nofun, nofun, nofun, Nat.le_refl _, nofun⟩, rfl, nofun⟩, nofun, nofun⟩

theorem Consistent.reaches (h : init.Consistent) (hs : Reaches Step unrestricted init s) :
    s.Consistent :=
  hs.invariant h fun hs _ hstep => (hs.step hstep).consistent

/-- Until a generation takes over, what was given up stays given up, and what was on its way
still is or is given up. -/
structure GivenUp (s t : Session p) : Prop where
  superseded : s.channel.superseded ⊆ t.channel.superseded
  pending {next : Generation KeyId} : s.channel.toGenerations.pending = some next →
    t.channel.toGenerations.pending = some next ∨ next.key ∈ t.channel.superseded

theorem Consistent.given_up (h : s.Consistent) (ht : Reaches Step unrestricted s t) :
    s.channel.primary.generation ≤ t.channel.primary.generation ∧
      (t.channel.primary.generation = s.channel.primary.generation → s.GivenUp t) := by
  have hrun : t.Consistent ∧ s.channel.primary.generation ≤ t.channel.primary.generation ∧
      (t.channel.primary.generation = s.channel.primary.generation → s.GivenUp t) := by
    refine ht.invariant (P := fun t : Session p => t.Consistent ∧
      s.channel.primary.generation ≤ t.channel.primary.generation ∧
        (t.channel.primary.generation = s.channel.primary.generation → s.GivenUp t))
      ⟨h, Nat.le_refl _, fun _ => ⟨List.Subset.refl _, .inl⟩⟩ ?_
    rintro m event u ⟨hm, hle, hgiven⟩ - hstep
    have hends := hm.step hstep
    refine ⟨hends.consistent, ?_⟩
    cases hends with
    | kept hkeeps =>
        have hkept := hkeeps.unpromoted
        have hsame : u.channel.primary.generation = m.channel.primary.generation :=
          congrArg Generation.number hkept.primary
        refine ⟨hle.trans_eq hsame.symm, fun hfirst => ?_⟩
        have hm' := hgiven (hsame.symm.trans hfirst)
        exact ⟨List.Subset.trans hm'.superseded hkept.superseded, fun hnext =>
          (hm'.pending hnext).elim hkept.pending fun hmem => .inr (hkept.superseded hmem)⟩
    | promoted _ hpromoted =>
        have hlater := hle.trans_lt hpromoted.later
        exact ⟨hlater.le, fun hfirst => absurd hfirst.symm hlater.ne⟩
  exact hrun.2

/-- **Key generations stay consistent** over every run of a session. -/
theorem key_generations_consistent {auth : TlsAuth} {localSession : SessionId} {tlsTimeout : ℕ}
    {credentials : Option Credentials} {peerTimeout : Option ℕ} {fresh : Fresh p}
    (hnew : Session.new auth localSession tlsTimeout credentials peerTimeout fresh = .ok init)
    (hs : Reaches Step unrestricted init s) :
    (∀ pending, s.channel.pending = some pending →
        pending.keyId ≠ s.channel.primary.keyId ∧ pending.keyId ∉ s.channel.superseded) ∧
      (∀ t, Reaches Step unrestricted s t →
        t.channel.primary.generation = s.channel.primary.generation →
          s.GivenUp t ∧ ∀ pending, t.channel.pending = some pending →
            pending.keyId ∉ s.channel.superseded) ∧
      (∀ data, s.data = some data → data.keyId = s.channel.primary.keyId) ∧
      ∀ event t, s.Step event t → s.Unpromoted t ∨ s.Promoted t := by
  have hconsistent := (Consistent.new hnew).reaches hs
  refine ⟨?_, ?_, fun _ hdata => hconsistent.keyed hdata, ?_⟩
  · intro pending hpending
    have hsome : s.followed.generations.pending = some pending.toGeneration :=
      congrArg (Option.map _) hpending
    exact ⟨hconsistent.sound.consistent.other hsome, hconsistent.sound.consistent.fresh hsome⟩
  · intro t ht hprimary
    have hgiven := (hconsistent.given_up ht).2 hprimary
    refine ⟨hgiven, fun pending hpending hmem => ?_⟩
    have hsome : t.followed.generations.pending = some pending.toGeneration :=
      congrArg (Option.map _) hpending
    exact (hconsistent.reaches ht).sound.consistent.fresh hsome (hgiven.superseded hmem)
  · intro event t hstep
    cases hconsistent.step hstep with
    | kept hkeeps => exact .inl hkeeps.unpromoted
    | promoted _ hpromoted => exact .inr hpromoted

/-- The HMACs of the server's answer and of the reset that follows it. -/
def resetsHmac : Hmac := envelopeHmac [
    serverAnswerMac,
    ⟨[35, 176, 25, 104, 207, 24, 161, 231, 236, 87, 103, 229, 4, 203, 183, 115, 252,
      206, 248, 128, 210, 153, 85, 85, 251, 47, 150, 163, 250, 212, 99, 124, 189, 87,
      244, 52, 239, 71, 239, 30, 146, 149, 161, 191, 105, 199, 26, 96, 146, 60, 182,
      109, 213, 45, 90, 170, 245, 41, 225, 29, 164, 39, 228, 29], rfl⟩]

/-- HMACs with zeros for values: nothing here depends on the keys. -/
def zeroPrf : PrfHmacs :=
  ⟨⟨fun _ _ => List.replicate 16 0, fun _ _ => rfl⟩,
    ⟨fun _ _ => List.replicate 20 0, fun _ _ => rfl⟩⟩

/-- The server has answered, and has started another generation. -/
def softlyReset : Session (clearPrimitives resetsHmac vectorCipher zeroPrf) :=
  ((clearSession resetsHmac vectorCipher zeroPrf).after
    (.handle (serverSends resetsHmac serverAnswer 1) 0 (clearFresh ..))).after
      (.handle (serverSends resetsHmac (softReset ⟨1, KeyId.one_le⟩) 2) 0 (clearFresh ..))

theorem soft_reset_is_consistent :
    softlyReset.channel.pending.map (·.keyId) = some ⟨1, by decide⟩ ∧
      (∀ pending, softlyReset.channel.pending = some pending →
        pending.keyId ≠ softlyReset.channel.primary.keyId ∧
          pending.keyId ∉ softlyReset.channel.superseded) ∧
      (∀ t, Reaches Step unrestricted softlyReset t →
        t.channel.primary.generation = softlyReset.channel.primary.generation →
          softlyReset.GivenUp t ∧ ∀ pending, t.channel.pending = some pending →
            pending.keyId ∉ softlyReset.channel.superseded) ∧
      (∀ data, softlyReset.data = some data → data.keyId = softlyReset.channel.primary.keyId) ∧
      ∀ event t, softlyReset.Step event t → softlyReset.Unpromoted t ∨ softlyReset.Promoted t := by
  have hreach : Reaches Step unrestricted (clearSession resetsHmac vectorCipher zeroPrf)
      softlyReset := (Reaches.start.next trivial rfl).next trivial rfl
  exact ⟨by decide +kernel, key_generations_consistent (new_clearSession ..) hreach⟩

end Session

end SynologyFilestation.Openvpn
