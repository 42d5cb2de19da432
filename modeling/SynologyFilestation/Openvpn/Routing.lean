import SynologyFilestation.Openvpn.Generations

/-!
Which connection a record is fed to (`openvpn/src/session.rs`, `handle`).

The channel starts a generation when its reset arrives; the session makes the
connection for it at the end of the same call, if the call gets that far. A record
of the new generation that arrives in between is fed to the connection of the old.
-/

namespace SynologyFilestation.Openvpn

open Core Library

namespace ControlChannel

variable {c : ControlChannel} {keyId : KeyId} {record : Bytes}

/-- The generation that is negotiated has a record to give. -/
def isReady (c : ControlChannel) : Bool :=
  match c.pending with
  | some state => state.recv.isReady
  | none => false

theorem mem_of_pollKeys {keyIds : List KeyId} (h : (pollKeys keyIds c).1 = some (keyId, record)) :
    keyId ∈ keyIds := by
  induction keyIds generalizing c with
  | nil => cases h
  | cons first keyIds ih =>
      rw [pollKeys] at h
      split at h
      case h_1 => cases h
      case h_2 =>
        split at h
        case h_1 =>
          obtain ⟨rfl, -⟩ := Prod.mk.inj (Option.some.inj h)
          exact List.mem_cons_self
        case h_2 => exact List.mem_cons_of_mem _ (ih h)

/-- A record is of the primary generation or of the one that is negotiated. -/
theorem pollControl_keyId (h : c.pollControl.1 = some (keyId, record)) :
    keyId = c.primary.keyId ∨ ∃ state, c.pending = some state ∧ state.keyId = keyId := by
  have hmem := mem_of_pollKeys h
  unfold keyIds at hmem
  split at hmem
  case h_1 state hpending =>
    rcases List.mem_cons.mp hmem with rfl | hmem
    · exact .inr ⟨state, hpending, rfl⟩
    · exact .inl (List.mem_singleton.mp hmem)
  case h_2 => exact .inl (List.mem_singleton.mp hmem)

/-- The generation that is negotiated has its turn first. -/
theorem pollControl_of_isReady {state : KeyState} (hpending : c.pending = some state)
    (hother : state.keyId ≠ c.primary.keyId) (hready : c.isReady = true) :
    ∃ record, c.pollControl.1 = some (state.keyId, record) := by
  rw [isReady, hpending] at hready
  obtain ⟨record, hrecord⟩ := Option.isSome_iff_exists.mp hready
  have hstate : c.stateOf state.keyId = some state := by
    rw [stateOf, if_neg hother.symm, hpending]
    exact if_pos rfl
  refine ⟨record, ?_⟩
  rw [pollControl, keyIds, hpending]
  dsimp only
  rw [pollKeys, hstate]
  dsimp only
  split
  case h_1 heq =>
    rw [heq] at hrecord
    obtain rfl := Option.some.inj hrecord
    rfl
  case h_2 heq =>
    rw [heq] at hrecord
    cases hrecord

theorem isReady_pollKeys_primary : (pollKeys [c.primary.keyId] c).2.isReady = c.isReady := by
  have hstate : c.stateOf c.primary.keyId = some c.primary := if_pos rfl
  have hwrite (state : KeyState) :
      c.withState c.primary.keyId state = { c with primary := state } :=
    if_pos rfl
  rw [pollKeys, hstate]
  dsimp only
  split
  case h_1 => rw [hwrite]; rfl
  case h_2 => rw [hwrite]; rfl

/-- If it has nothing to give, the record is the primary generation's, and it still has
nothing. -/
theorem pollControl_of_not_isReady
    (hother : ∀ state, c.pending = some state → state.keyId ≠ c.primary.keyId)
    (hready : c.isReady = false) :
    c.pollControl.2.isReady = false ∧
      ∀ keyId record, c.pollControl.1 = some (keyId, record) → keyId = c.primary.keyId := by
  unfold pollControl keyIds
  split
  case h_1 state hpending =>
    have hne := hother state hpending
    have hstate : c.stateOf state.keyId = some state := by
      rw [stateOf, if_neg hne.symm, hpending]
      exact if_pos rfl
    have hempty : state.recv.isReady = false := by
      rw [isReady, hpending] at hready
      exact hready
    rw [pollKeys, hstate]
    dsimp only
    split
    case h_1 heq =>
      rw [RecvWindow.isReady, heq] at hempty
      cases hempty
    case h_2 recv heq =>
      -- What was stepped over is written back, and the primary generation has its turn.
      have hwrite : c.withState state.keyId { state with recv := recv } =
          { c with pending := some { state with recv := recv } } := if_neg hne.symm
      rw [hwrite]
      have hnothing : recv.isReady = false := RecvWindow.isReady_of_nextRecord heq
      refine ⟨?_, fun keyId record h => List.mem_singleton.mp (mem_of_pollKeys h)⟩
      exact isReady_pollKeys_primary.trans hnothing
  case h_2 hpending =>
    exact ⟨isReady_pollKeys_primary.trans hready,
      fun keyId record h => List.mem_singleton.mp (mem_of_pollKeys h)⟩

end ControlChannel

/-! ### The feeds of a call -/

/-- A record that is fed to a connection: the generation it was received under, and the one
that the connection was made for. -/
structure Feed where
  generation : Option ℕ
  connection : ℕ
  deriving DecidableEq

def Feed.Right (feed : Feed) : Prop := feed.generation = some feed.connection

variable {p : Primitives}

namespace Session

/-- The connection that a record under this key id is fed to. -/
def connectionOf (s : Session p) (keyId : KeyId) : Connection p.tls :=
  match s.renegotiation with
  | some pending => if pending.keyId = keyId then pending.tls else s.tls
  | none => s.tls

/-- What is fed by `feedRecords`. -/
def feeds : ℕ → Session p → List Feed
  | 0, _ => []
  | n + 1, s =>
      match s.channel.pollControl with
      | (none, _) => []
      | (some (keyId, record), channel) =>
          let fed := { s with channel := channel }
          ⟨(s.channel.stateOf keyId).map (·.generation), (fed.connectionOf keyId).generation⟩ ::
            match fed.feedRecord keyId record with
            | (.ok (), s) => feeds n s
            | (.error _, _) => []

/-- The records that one event feeds. -/
def feedsOf (s : Session p) : SessionEvent p → List Feed
  | .handle datagram now _ =>
      match s.failure, s.channel.handle p.hmac datagram now with
      | none, (.ok (), channel) => feeds (recordsBound channel) { s with channel := channel }
      | _, _ => []
  | _ => []

variable {s t : Session p} {keyId : KeyId} {record : Bytes}

theorem connectionOf_of_eq {r : Renegotiation p} (hr : s.renegotiation = some r)
    (hkey : r.keyId = keyId) : s.connectionOf keyId = r.tls := by
  rw [connectionOf, hr]
  exact if_pos hkey

theorem connectionOf_of_ne (hr : s.renegotiation.map (·.keyId) ≠ some keyId) :
    s.connectionOf keyId = s.tls := by
  unfold connectionOf
  split
  case h_1 r heq =>
    rw [heq] at hr
    exact if_neg fun hkey => hr (congrArg some hkey)
  case h_2 => rfl

/-- That connection is the one that is fed. -/
theorem feedRecord_connectionOf :
    (s.feedRecord keyId record).1 = (p.tls.feed (s.connectionOf keyId).state record).1 ∧
      (s.feedRecord keyId record).2.connectionOf keyId =
        { s.connectionOf keyId with
          state := (p.tls.feed (s.connectionOf keyId).state record).2 } := by
  by_cases hkey : s.renegotiation.map (·.keyId) = some keyId
  · obtain ⟨r, hr, hrkey⟩ := Option.map_eq_some_iff.mp hkey
    rw [connectionOf_of_eq hr hrkey, feedRecord, hr]
    dsimp only
    rw [if_pos hrkey]
    exact ⟨rfl, if_pos hrkey⟩
  · have hfed : s.feedRecord keyId record = ((p.tls.feed s.tls.state record).1,
        { s with tls := { s.tls with state := (p.tls.feed s.tls.state record).2 } }) := by
      unfold feedRecord
      split
      case h_1 r heq =>
        rw [heq] at hkey
        exact if_neg fun hrkey => hkey (congrArg some hrkey)
      case h_2 => rfl
    rw [connectionOf_of_ne hkey, hfed]
    exact ⟨rfl, connectionOf_of_ne hkey⟩

theorem generation_connectionOf : (s.connectionOf keyId).generation = s.followed.served keyId := by
  unfold connectionOf Followed.served followed
  cases s.renegotiation with
  | none => rfl
  | some pending =>
      dsimp only [Option.map_some]
      exact apply_ite Connection.generation _ _ _

/-- **Which record of a session is fed to the right connection**: every one of the generation
in charge, and one of the generation on its way when the renegotiation is for it. -/
theorem Consistent.right_iff (h : s.Consistent) {state : KeyState}
    (hstate : s.channel.stateOf keyId = some state) :
    (s.connectionOf keyId).generation = state.generation ↔
      keyId = s.channel.primary.keyId ∨ s.followed.InStep := by
  rw [generation_connectionOf]
  by_cases hprimary : keyId = s.channel.primary.keyId
  · subst hprimary
    obtain rfl : s.channel.primary = state := Option.some.inj ((if_pos rfl).symm.trans hstate)
    exact iff_of_true h.sound.served_primary (.inl rfl)
  · have hpending : s.followed.generations.pending = some state.toGeneration := by
      rw [ControlChannel.stateOf, if_neg (Ne.symm hprimary)] at hstate
      split at hstate
      case h_1 pending heq =>
        split at hstate
        case isTrue =>
          obtain rfl := Option.some.inj hstate
          exact congrArg (Option.map KeyState.toGeneration) heq
        case isFalse => cases hstate
      case h_2 => cases hstate
    have hkey : state.toGeneration.key = keyId := ControlChannel.keyId_of_stateOf hstate
    subst hkey
    refine (h.sound.served_pending hpending).trans ?_
    exact ⟨.inr, fun hor => hor.resolve_left hprimary⟩

/-- In step, or nothing of the generation on its way can be fed. -/
def UpToDate (s : Session p) : Prop := s.followed.InStep ∨ s.channel.isReady = false

theorem Consistent.other (h : s.Consistent) {state : KeyState}
    (hpending : s.channel.pending = some state) :
    state.keyId ≠ s.channel.primary.keyId :=
  h.sound.consistent.other (congrArg (Option.map KeyState.toGeneration) hpending)

/-- A record that is polled and fed leaves the session up to date. -/
theorem UpToDate.feed (hdate : s.UpToDate) (h : s.Consistent) {channel : ControlChannel}
    {polled : Option (KeyId × Bytes)} (hpoll : s.channel.pollControl = (polled, channel))
    (keyId : KeyId) (record : Bytes) :
    UpToDate ({ s with channel := channel }.feedRecord keyId record).2 := by
  have hgenerations := s.channel.toGenerations_pollControl
  rw [hpoll] at hgenerations
  have hsame : Session.followed { s with channel := channel } = s.followed := by
    rw [followed, hgenerations]
    rfl
  obtain ⟨hfollowed, tls, renegotiation, heq⟩ :=
    Session.feedRecord_frame { s with channel := channel } keyId record
  rcases hdate with hstep | hready
  · left
    rw [hfollowed, hsame]
    exact hstep
  · right
    have hpolled := (ControlChannel.pollControl_of_not_isReady (fun _ => h.other) hready).1
    rw [hpoll] at hpolled
    rw [heq]
    exact hpolled

theorem Consistent.feeds_right (h : s.Consistent) (hdate : s.UpToDate) (n : ℕ) :
    ∀ feed ∈ feeds n s, feed.Right := by
  induction n generalizing s with
  | zero => exact fun _ hmem => absurd hmem List.not_mem_nil
  | succ n ih =>
      rw [feeds]
      split
      case h_1 => exact fun _ hmem => absurd hmem List.not_mem_nil
      case h_2 keyId record channel hpoll =>
        have hfirst := congrArg Prod.fst hpoll
        obtain ⟨state, hstate⟩ : ∃ state, s.channel.stateOf keyId = some state := by
          refine Option.ne_none_iff_exists'.mp fun hnone => ?_
          obtain ⟨hprimary, hpending⟩ := ControlChannel.stateOf_eq_none.mp hnone
          rcases ControlChannel.pollControl_keyId hfirst with rfl | ⟨state, heq, rfl⟩
          · exact hprimary rfl
          · exact hpending (congrArg (Option.map KeyState.keyId) heq)
        have hright : (s.connectionOf keyId).generation = state.generation := by
          refine (h.right_iff hstate).mpr ?_
          rcases hdate with hstep | hready
          · exact .inr hstep
          · exact .inl ((ControlChannel.pollControl_of_not_isReady (fun _ => h.other) hready).2
              keyId record hfirst)
        have hpolled := s.channel.toGenerations_pollControl
        rw [hpoll] at hpolled
        have hfed := (h.channel hpolled).consistent.feedRecord keyId record
        have hdate' := hdate.feed h hpoll keyId record
        intro feed hmem
        rcases List.mem_cons.mp hmem with rfl | hmem
        · rw [Feed.Right, hstate]
          exact congrArg some hright.symm
        · split at hmem
          case h_1 heq =>
            rw [heq] at hfed hdate'
            exact ih hfed.consistent hdate' feed hmem
          case h_2 => exact absurd hmem List.not_mem_nil

/-- **Every record of a call is fed to the right connection** exactly if the session is up
to date when the records are taken. -/
theorem Consistent.feeds_right_iff (h : s.Consistent) (n : ℕ) :
    (∀ feed ∈ feeds (n + 1) s, feed.Right) ↔ s.UpToDate := by
  refine ⟨fun hright => ?_, fun hdate => h.feeds_right hdate (n + 1)⟩
  by_contra hbehind
  obtain ⟨hstep, hready⟩ := not_or.mp hbehind
  rw [Bool.not_eq_false] at hready
  obtain ⟨state, hpending⟩ : ∃ state, s.channel.pending = some state := by
    rcases hpending : s.channel.pending with _ | state
    · rw [ControlChannel.isReady, hpending] at hready
      cases hready
    · exact ⟨state, rfl⟩
  have hother := h.other hpending
  obtain ⟨record, hfirst⟩ := ControlChannel.pollControl_of_isReady hpending hother hready
  have hstate : s.channel.stateOf state.keyId = some state := by
    rw [ControlChannel.stateOf, if_neg hother.symm, hpending]
    exact if_pos rfl
  rcases hpoll : s.channel.pollControl with ⟨_, channel⟩
  obtain rfl := (congrArg Prod.fst hpoll).symm.trans hfirst
  rw [feeds, hpoll] at hright
  have hfeed := hright _ List.mem_cons_self
  rw [Feed.Right, hstate] at hfeed
  exact ((h.right_iff hstate).mp (Option.some.inj hfeed).symm).elim hother hstep

/-! ### The renegotiation after a call -/

theorem inStep_openTunnel (hstep : s.followed.InStep) : s.openTunnel.2.followed.InStep := by
  unfold openTunnel
  split
  case h_1 => exact hstep
  case h_2 => split <;> exact hstep

theorem inStep_takeOver {r r' : Renegotiation p} (hstep : s.followed.InStep)
    (hr : s.renegotiation = some r) (hsame : r'.toGeneration = r.toGeneration)
    (reply : ServerKeyMethod2) (used : ℕ) : (s.takeOver r' reply used).2.followed.InStep := by
  unfold takeOver
  dsimp only
  split
  case h_1 =>
    have hcandidate : s.followed.candidate = some r'.toGeneration :=
      (congrArg (Option.map Renegotiation.toGeneration) hr).trans (congrArg some hsame.symm)
    exact hcandidate.symm.trans hstep
  case h_2 =>
    have hnone : s.channel.promote.pending.map KeyState.toGeneration = none := by
      rw [ControlChannel.pending_promote]
      rfl
    split
    case isTrue => exact inStep_openTunnel hnone.symm
    case isFalse => exact hnone.symm

theorem inStep_advanceRenegotiation (hstep : s.followed.InStep) :
    s.advanceRenegotiation.2.followed.InStep := by
  unfold advanceRenegotiation
  split
  case h_1 => exact hstep
  case h_2 r hr =>
    have hsame := r.toGeneration_advance s.credentials
    have hkept {r' : Renegotiation p} (hr' : r'.toGeneration = r.toGeneration) :
        Followed.InStep (followed { s with renegotiation := some r' }) := by
      have hcandidate : s.followed.candidate = some r'.toGeneration :=
        (congrArg (Option.map Renegotiation.toGeneration) hr).trans (congrArg some hr'.symm)
      exact hcandidate.symm.trans hstep
    split
    case h_1 heq =>
      rw [heq] at hsame
      exact hkept hsame
    case h_2 heq =>
      rw [heq] at hsame
      split
      case h_1 => exact hkept hsame
      case h_2 => exact hkept hsame
      case h_3 => exact hkept hsame
      case h_4 => exact inStep_takeOver hstep hr hsame _ _

/-- **A call that succeeds** leaves a renegotiation for the pending generation and no other. -/
theorem Consistent.handle_inStep (h : s.Consistent) {datagram : Bytes} {now : ℕ} {fresh : Fresh p}
    (hok : s.handle datagram now fresh = (.ok (), t)) : t.followed.InStep := by
  obtain ⟨received, hreceived, hprocess⟩ := andThen_eq_ok.mp hok
  obtain ⟨begun, hbegun, hadvance⟩ := andThen_eq_ok.mp hprocess
  obtain ⟨exchanged, hexchanged, hbegin⟩ := andThen_eq_ok.mp hbegun
  have hreceive := h.receive datagram now
  rw [hreceived] at hreceive
  have hexchange := hreceive.consistent.exchange
  rw [hexchanged] at hexchange
  have hstep := inStep_advanceRenegotiation (hexchange.consistent.beginRenegotiation_inStep hbegin)
  rw [hadvance] at hstep
  exact hstep

/-! ### Runs -/

/-- What one event does right: every record goes to the connection of its generation, and a
call that succeeds leaves the renegotiation of the pending generation. -/
structure RoutesRightly (s : Session p) (event : SessionEvent p) : Prop where
  feeds : ∀ feed ∈ s.feedsOf event, feed.Right
  together : ∀ datagram now fresh t, event = .handle datagram now fresh →
    s.handle datagram now fresh = (.ok (), t) →
      t.renegotiation.map Renegotiation.toGeneration = t.channel.pending.map KeyState.toGeneration

/-- No record of the pending generation is ready when the datagram is in, unless there is a
renegotiation under its key id. -/
def keepsUp (s : Session p) : SessionEvent p → Bool
  | .handle datagram now _ =>
      match s.failure, s.channel.handle p.hmac datagram now with
      | none, (.ok (), channel) =>
          s.renegotiation.map (·.keyId) = channel.pendingKeyId || !channel.isReady
      | _, _ => true
  | _ => true

theorem Consistent.inStep_iff (h : s.Consistent) :
    s.followed.InStep ↔ s.renegotiation.map (·.keyId) = s.channel.pendingKeyId := by
  constructor
  · intro hstep
    have hkeys := congrArg (Option.map Generation.key) hstep
    rw [followed, ControlChannel.toGenerations, Option.map_map, Option.map_map] at hkeys
    exact hkeys
  · intro hkeys
    rcases hpending : s.channel.pending with _ | state
    · have hnone : s.followed.generations.pending = none := congrArg (Option.map _) hpending
      exact (h.sound.candidate_none hnone).trans hnone.symm
    · rw [ControlChannel.pendingKeyId, hpending] at hkeys
      obtain ⟨r, hr, hkey⟩ := Option.map_eq_some_iff.mp hkeys
      have hsome : s.followed.generations.pending = some state.toGeneration :=
        congrArg (Option.map _) hpending
      have hcandidate : s.followed.candidate = some r.toGeneration := congrArg (Option.map _) hr
      rw [Followed.InStep, hcandidate, hsome, h.sound.eq_of_key hcandidate hsome hkey]

theorem Consistent.routesRightly_iff (h : s.Consistent) {event : SessionEvent p} :
    s.RoutesRightly event ↔ s.keepsUp event = true := by
  have htogether : ∀ datagram now fresh t, event = .handle datagram now fresh →
      s.handle datagram now fresh = (.ok (), t) →
        t.renegotiation.map Renegotiation.toGeneration =
          t.channel.pending.map KeyState.toGeneration :=
    fun _ _ _ _ _ hok => h.handle_inStep hok
  have hfeeds : s.RoutesRightly event ↔ ∀ feed ∈ s.feedsOf event, feed.Right :=
    ⟨RoutesRightly.feeds, fun hright => ⟨hright, htogether⟩⟩
  rw [hfeeds]
  unfold feedsOf keepsUp
  split
  case h_2 => exact iff_of_true (fun _ hmem => absurd hmem List.not_mem_nil) rfl
  case h_1 datagram now fresh =>
    have hstarting := s.channel.starting_handle p.hmac datagram now
    split
    case h_1 channel _ heq =>
      rw [heq] at hstarting
      have hchannel := (h.starting hstarting).consistent
      rw [recordsBound, hchannel.feeds_right_iff, UpToDate, hchannel.inStep_iff]
      simp
    case h_2 => exact iff_of_true (fun _ hmem => absurd hmem List.not_mem_nil) rfl

/-- **Records reach the right connection** in a run exactly if the session keeps up with the
channel in every call of it. -/
theorem records_routed_iff {init : Session p} {auth : TlsAuth} {localSession : SessionId}
    {tlsTimeout : ℕ} {credentials : Option Credentials} {peerTimeout : Option ℕ} {fresh : Fresh p}
    (hnew : Session.new auth localSession tlsTimeout credentials peerTimeout fresh = .ok init)
    (events : List (SessionEvent p)) :
    EveryStep after RoutesRightly init events ↔
      EveryStep after (fun s event => s.keepsUp event = true) init events :=
  everyStep_iff (I := Consistent) (fun hs => (hs.step rfl).consistent)
    (fun hs => hs.routesRightly_iff) (Consistent.new hnew) events

/-- The HMACs of five packets of the server. -/
def fiveHmac : Hmac := envelopeHmac [
    serverAnswerMac,
    firstRecordMac,
    ⟨[130, 98, 218, 39, 61, 174, 211, 226, 204, 8, 204, 121, 165, 161, 161, 236, 210, 122,
      59, 107, 141, 48, 124, 6, 55, 96, 252, 52, 101, 79, 168, 253, 190, 104, 76, 70, 72,
      97, 247, 56, 135, 240, 224, 197, 28, 125, 60, 77, 106, 51, 130, 251, 176, 222, 25,
      215, 243, 236, 166, 222, 26, 32, 28, 225], rfl⟩,
    ⟨[151, 178, 110, 204, 215, 220, 124, 253, 174, 231, 47, 93, 46, 80, 184, 166, 239, 83,
      158, 91, 151, 222, 136, 224, 217, 131, 115, 169, 174, 168, 79, 100, 51, 46, 162, 72,
      171, 156, 174, 1, 208, 42, 152, 100, 247, 65, 188, 207, 180, 165, 25, 236, 81, 137,
      114, 156, 94, 229, 42, 122, 181, 253, 109, 30], rfl⟩,
    ⟨[48, 47, 119, 31, 45, 255, 140, 181, 89, 40, 104, 54, 58, 132, 143, 33, 104, 60, 203,
      193, 162, 22, 204, 198, 30, 152, 92, 209, 56, 96, 169, 242, 32, 200, 46, 154, 10,
      183, 167, 83, 151, 81, 142, 180, 74, 150, 67, 200, 49, 14, 48, 172, 119, 95, 149,
      32, 41, 35, 75, 192, 237, 234, 105, 231], rfl⟩]

def delivery (packet : ControlPacket) (id : UInt32) :
    SessionEvent (clearPrimitives fiveHmac vectorCipher zeroPrf) :=
  .handle (serverSends fiveHmac packet id) 0 (clearFresh ..)

/-- The server answers, starts a generation, and sends a record of it. -/
def followedRun : List (SessionEvent (clearPrimitives fiveHmac vectorCipher zeroPrf)) := [
  delivery serverAnswer 1,
  delivery (softReset ⟨1, KeyId.one_le⟩) 4,
  delivery (serverRecord ⟨1, KeyId.one_le⟩ 1 [1]) 5]

theorem followed_run_is_routed :
    EveryStep after RoutesRightly (clearSession fiveHmac vectorCipher zeroPrf) followedRun :=
  (records_routed_iff (new_clearSession ..) followedRun).mpr (by decide +kernel)

/-- Two messages that are not expected come in one record. The second is still there when the
generation starts, and that call ends at it. -/
def overtakenRun : List (SessionEvent (clearPrimitives fiveHmac vectorCipher zeroPrf)) := [
  delivery serverAnswer 1,
  delivery (serverRecord .FIRST 1 [1]) 2,
  delivery (serverRecord .FIRST 2 (ascii "AAA" ++ [0] ++ ascii "BBB" ++ [0])) 3,
  delivery (softReset ⟨1, KeyId.one_le⟩) 4]

def overtaken : Session (clearPrimitives fiveHmac vectorCipher zeroPrf) :=
  overtakenRun.foldl after (clearSession fiveHmac vectorCipher zeroPrf)

/-- The first record of the new generation is fed to the connection of the old one. -/
theorem overtaken_record_misrouted :
    ¬∀ events,
      EveryStep after RoutesRightly (clearSession fiveHmac vectorCipher zeroPrf) events := by
  intro h
  obtain ⟨-, -, -, -, hlast, -⟩ :=
    h (overtakenRun ++ [delivery (serverRecord ⟨1, by decide⟩ 1 [1]) 5])
  have hfeeds : overtaken.feedsOf (delivery (serverRecord ⟨1, by decide⟩ 1 [1]) 5) =
      [⟨some 1, 0⟩] := by
    decide +kernel
  have hright := hlast.feeds ⟨some 1, 0⟩ (hfeeds ▸ List.mem_cons_self)
  cases hright

end Session

end SynologyFilestation.Openvpn
