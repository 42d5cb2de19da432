import SynologyFilestation.Library.Drain
import SynologyFilestation.Openvpn.Channel
import SynologyFilestation.Openvpn.ReliableLink

/-!
TLS bytes on the control channel (`openvpn/src/session.rs`, `Outbox`).

Bytes wait until the send window takes them, in pieces that fit a datagram. One
generation of keys is followed: its outbox, its window, and the window at the
other end.
-/

namespace SynologyFilestation.Openvpn

open Core Library

/-- `CONTROL_MTU`. -/
def controlMtu : ℕ := 1250

/-- `CONTROL_OVERHEAD`. -/
def controlOverhead : ℕ := 9 + 64 + 8 + 41 + 4

/-- `MAX_TLS_FRAGMENT`. -/
def maxTlsFragment : ℕ := controlMtu - controlOverhead

/-- `Outbox`. -/
structure Outbox where
  pending : Bytes
  deriving DecidableEq

namespace Outbox

/-- `Outbox::push`. -/
def push (outbox : Outbox) (bytes : Bytes) : Outbox := ⟨outbox.pending ++ bytes⟩

/-- `Outbox::drain_into`. -/
def drainInto (outbox : Outbox) (channel : ControlChannel) (keyId : KeyId) :
    Outbox × ControlChannel :=
  let (pending, channel) :=
    drain maxTlsFragment (fun c piece => c.sendControl keyId piece) outbox.pending channel
  (⟨pending⟩, channel)

end Outbox

/-- What `send_control` does to the window of the generation. -/
def SendWindow.sendControl (w : SendWindow) (payload : Bytes) : Bool × SendWindow :=
  let (id, w') := w.queue .controlV1 payload
  (id.isSome, w')

/-- **Draining into the channel is draining into the window of the generation.** -/
theorem Outbox.drainInto_eq (outbox : Outbox) {c : ControlChannel} {keyId : KeyId}
    {state : KeyState} (hstate : c.stateOf keyId = some state) :
    (outbox.drainInto c keyId).1.pending =
        (drain maxTlsFragment SendWindow.sendControl outbox.pending state.send).1 ∧
      ∃ state', (outbox.drainInto c keyId).2.stateOf keyId = some state' ∧
        state'.send =
          (drain maxTlsFragment SendWindow.sendControl outbox.pending state.send).2 := by
  refine drain_simulates (R := fun (c : ControlChannel) w =>
    ∃ state, c.stateOf keyId = some state ∧ state.send = w) ?_ ⟨state, hstate, rfl⟩
  rintro c _ piece ⟨state, hstate, rfl⟩
  rw [ControlChannel.sendControl, hstate]
  have hkeyId : state.keyId = keyId := ControlChannel.keyId_of_stateOf hstate
  exact ⟨rfl, _, ControlChannel.stateOf_withState hkeyId, rfl⟩

/-! ### The bytes of one generation -/

/-- The TLS records among messages: resets are stepped over. -/
def fragments (messages : List (Opcode × Bytes)) : List Bytes :=
  (messages.filter (·.1 = .controlV1)).map Prod.snd

theorem fragments_append (messages more : List (Opcode × Bytes)) :
    fragments (messages ++ more) = fragments messages ++ fragments more := by
  rw [fragments, List.filter_append, List.map_append]
  rfl

/-- `send_control`, with what it queues written down. -/
def ReliableLink.sendControl (s : ReliableLink) (payload : Bytes) : Bool × ReliableLink :=
  let (sent, w) := s.send.sendControl payload
  (sent, { s with
    send := w
    queued := if sent then s.queued ++ [(.controlV1, payload)] else s.queued })

/-- The outbox and the windows of a generation, and all that was pushed. -/
structure TlsLink where
  outbox : Outbox
  link : ReliableLink
  pushed : Bytes

def TlsLink.new (timeout : ℕ) : TlsLink := ⟨⟨[]⟩, .new timeout, []⟩

inductive TlsEvent
  | opening
  | push
  | drain
  | network

/-- The end that opens a session queues its reset before anything else. What TLS has
written is pushed and drained in any order with what the network does. -/
inductive TlsStep : TlsLink → TlsEvent → TlsLink → Prop
  | opening {s : TlsLink} {id : UInt32} {w : SendWindow} (hfirst : s.link.queued = [])
      (h : s.link.send.queue .controlHardResetClientV2 [] = (some id, w)) :
      TlsStep s .opening { s with
        link := { s.link with send := w, queued := [(.controlHardResetClientV2, [])] } }
  | push {s : TlsLink} (bytes : Bytes) :
      TlsStep s .push { s with outbox := s.outbox.push bytes, pushed := s.pushed ++ bytes }
  | drain {s : TlsLink} {pending : Bytes} {link : ReliableLink}
      (h : Library.drain maxTlsFragment ReliableLink.sendControl s.outbox.pending s.link =
        (pending, link)) :
      TlsStep s .drain { s with outbox := ⟨pending⟩, link := link }
  | network {s : TlsLink} {event : ReliableEvent} {link : ReliableLink} (hevent : event ≠ .queue)
      (h : ReliableStep s.link event link) : TlsStep s .network { s with link := link }

namespace TlsLink

variable {timeout : ℕ} {s t : TlsLink} {event : TlsEvent}

/-- Nothing is lost between the outbox and the window. -/
structure Whole (timeout : ℕ) (pushed pending : Bytes) (link : ReliableLink) : Prop where
  reached : Reaches ReliableStep unrestricted (.new timeout) link
  bytes : (fragments link.queued).flatten ++ pending = pushed
  sized : ∀ fragment ∈ fragments link.queued, fragment ≠ [] ∧ fragment.length ≤ maxTlsFragment

theorem sendControl_eq {link link' : ReliableLink} {payload : Bytes} {sent : Bool}
    (h : link.sendControl payload = (sent, link')) :
    sent = true ∧ ReliableStep link .queue link' ∧
        link'.queued = link.queued ++ [(.controlV1, payload)] ∨
      sent = false ∧ link' = link := by
  rcases hqueue : link.send.queue .controlV1 payload with ⟨_ | id, w⟩
  · rw [ReliableLink.sendControl, SendWindow.sendControl, hqueue] at h
    obtain ⟨rfl, rfl⟩ := Prod.mk.inj h
    refine .inr ⟨rfl, ?_⟩
    rw [SendWindow.queue_eq_none hqueue]
    rfl
  · rw [ReliableLink.sendControl, SendWindow.sendControl, hqueue] at h
    obtain ⟨rfl, rfl⟩ := Prod.mk.inj h
    exact .inl ⟨rfl, .queue hqueue, rfl⟩

/-- A piece that the window takes leaves the buffer. -/
theorem Whole.sent {pushed pending : Bytes} {link link' : ReliableLink}
    (h : Whole timeout pushed pending link) (hne : pending ≠ [])
    (hsend : link.sendControl (pending.take maxTlsFragment) = (true, link')) :
    Whole timeout pushed (pending.drop maxTlsFragment) link' := by
  rcases sendControl_eq hsend with ⟨-, hstep, hqueued⟩ | ⟨hfalse, -⟩
  · have hfragments : fragments link'.queued =
        fragments link.queued ++ [pending.take maxTlsFragment] := by
      rw [hqueued, fragments_append]
      rfl
    refine ⟨h.reached.next trivial hstep, ?_, ?_⟩
    · rw [hfragments, List.flatten_append, List.flatten_singleton, List.append_assoc,
        List.take_append_drop, h.bytes]
    · intro fragment hfragment
      rw [hfragments] at hfragment
      rcases List.mem_append.mp hfragment with hold | hnew
      · exact h.sized fragment hold
      · obtain rfl := List.mem_singleton.mp hnew
        refine ⟨?_, List.length_take_le ..⟩
        rw [ne_eq, List.take_eq_nil_iff, not_or]
        exact ⟨by decide, hne⟩
  · cases hfalse

theorem Whole.refused {pushed pending : Bytes} {link link' : ReliableLink}
    (h : Whole timeout pushed pending link)
    (hsend : link.sendControl (pending.take maxTlsFragment) = (false, link')) :
    Whole timeout pushed pending link' := by
  rcases sendControl_eq hsend with ⟨hfalse, -⟩ | ⟨-, rfl⟩
  · cases hfalse
  · exact h

theorem Whole.opening {pushed pending : Bytes} {link : ReliableLink} {id : UInt32} {w : SendWindow}
    (h : Whole timeout pushed pending link) (hfirst : link.queued = [])
    (hqueue : link.send.queue .controlHardResetClientV2 [] = (some id, w)) :
    Whole timeout pushed pending
      { link with send := w, queued := [(.controlHardResetClientV2, [])] } := by
  have hstep := ReliableStep.queue hqueue
  have hbytes := h.bytes
  rw [hfirst] at hstep hbytes
  exact ⟨h.reached.next trivial hstep, hbytes, nofun⟩

theorem Whole.step (h : Whole timeout s.pushed s.outbox.pending s.link)
    (hstep : TlsStep s event t) : Whole timeout t.pushed t.outbox.pending t.link := by
  cases hstep with
  | opening hfirst hqueue => exact h.opening hfirst hqueue
  | push bytes =>
      refine { h with bytes := ?_ }
      rw [Outbox.push, ← List.append_assoc, h.bytes]
  | drain hdrain =>
      have hwhole : Whole timeout s.pushed
          (Library.drain maxTlsFragment ReliableLink.sendControl s.outbox.pending s.link).1
          (Library.drain maxTlsFragment ReliableLink.sendControl s.outbox.pending s.link).2 :=
        drain_invariant h (fun _ _ _ h hne hsend => h.sent hne hsend)
          fun _ _ _ h hsend => h.refused hsend
      rw [hdrain] at hwhole
      exact hwhole
  | network hevent hlink =>
      have hqueued := hlink.queued_eq hevent
      exact ⟨h.reached.next trivial hlink, hqueued ▸ h.bytes, hqueued ▸ h.sized⟩

theorem whole_of_reaches (h : Reaches TlsStep unrestricted (new timeout) s) :
    Whole timeout s.pushed s.outbox.pending s.link :=
  h.invariant (P := fun s => Whole timeout s.pushed s.outbox.pending s.link)
    ⟨.start, rfl, fun _ hmem => absurd hmem List.not_mem_nil⟩ fun hs _ hstep => hs.step hstep

/-- **TLS bytes survive the control channel.** What was queued, in the order of the message
ids, and what still waits is what was pushed, and the other end gets a front of it. -/
theorem tls_bytes_survive (h : Reaches TlsStep unrestricted (new timeout) s) :
    (fragments s.link.queued).flatten ++ s.outbox.pending = s.pushed ∧
      (∀ fragment ∈ fragments s.link.queued, fragment ≠ [] ∧ fragment.length ≤ maxTlsFragment) ∧
      (∀ out ∈ s.link.sent, s.link.queued[out.packetId.toNat]? = some (out.opcode, out.payload)) ∧
      (fragments s.link.delivered).flatten <+: s.pushed := by
  have hwhole := whole_of_reaches h
  have horder := ReliableLink.inOrder_of_reaches hwhole.reached
  refine ⟨hwhole.bytes, hwhole.sized, fun out hout => horder.sent hout, ?_⟩
  obtain ⟨rest, hrest⟩ : s.link.delivered <+: s.link.queued :=
    horder.delivered ▸ List.take_prefix ..
  refine ⟨(fragments rest).flatten ++ s.outbox.pending, ?_⟩
  rw [← List.append_assoc, ← List.flatten_append, ← fragments_append, hrest, hwhole.bytes]

/-- Three bytes, pushed and drained behind the opening reset. -/
def threeBytes : TlsLink where
  outbox := ⟨[]⟩
  link := { ReliableLink.new 2 with
    send := (((SendWindow.new 2).queue .controlHardResetClientV2 []).2.queue .controlV1 [1, 2, 3]).2
    queued := [(.controlHardResetClientV2, []), (.controlV1, [1, 2, 3])] }
  pushed := [1, 2, 3]

theorem three_bytes_survive :
    Reaches TlsStep unrestricted (new 2) threeBytes ∧
      ((fragments threeBytes.link.queued).flatten ++ threeBytes.outbox.pending = [1, 2, 3] ∧
        (∀ fragment ∈ fragments threeBytes.link.queued,
          fragment ≠ [] ∧ fragment.length ≤ maxTlsFragment) ∧
        (∀ out ∈ threeBytes.link.sent,
          threeBytes.link.queued[out.packetId.toNat]? = some (out.opcode, out.payload)) ∧
        (fragments threeBytes.link.delivered).flatten <+: [1, 2, 3]) := by
  have hopening : TlsStep (new 2) .opening _ := .opening rfl rfl
  have hreach : Reaches TlsStep unrestricted (new 2) threeBytes :=
    ((Reaches.start.next trivial hopening).next trivial (.push [1, 2, 3])).next trivial (.drain rfl)
  exact ⟨hreach, tls_bytes_survive hreach⟩

end TlsLink

end SynologyFilestation.Openvpn
