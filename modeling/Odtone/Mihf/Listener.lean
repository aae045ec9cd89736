import Odtone.Mihf.Transaction

/-! # Listeners

What the UDP listener and the sessions of the TCP listener do with the bytes they receive, in
`src/mihf/udp_listener.cpp` and `tcp_listener.cpp`. Both take the bytes of one read for one frame.

A datagram is read as a whole, but a TCP read returns whatever part of the stream is there, and a
session reads only once. `session_framing_iff` says on which connections it still dispatches what
was written.
-/

namespace Odtone.Mihf

open Wire (Bytes Frame)
open List Except

/-- Where a datagram or a connection comes from. -/
structure Endpoint where
  ip : Bytes
  scope : UInt16
  port : UInt16
deriving DecidableEq

/-- The texts of the loopback addresses, `127.0.0.1` and `::1`. -/
def loopback : List Bytes := [[49, 50, 55, 46, 48, 46, 48, 46, 49], [58, 58, 49]]

local instance lawfulBEq_address : LawfulBEq (List UInt8) := inferInstance

/-- `meta_message(ip, scope, port, fm)` -/
def MetaMessage.ofFrame (src : Endpoint) (fm : Frame) : Except Wire.Error MetaMessage :=
  (Wire.Message.ofFrame fm).map fun m =>
    { m with isLocal := src.ip ∈ loopback, ip := src.ip, scope := src.scope, port := src.port }

/-- What the bytes of one read are dispatched as: nothing if they are not a complete frame, or a
multicast that the configuration refuses. The exceptions of decoding pass through. -/
def received (enableMulticast : Bool) (src : Endpoint) (buff : Bytes) :
    Except Wire.Error (Option MetaMessage) :=
  match Frame.cast buff with
  | none => .ok none
  | some fm => (MetaMessage.ofFrame src fm).map fun m =>
    if m.isMulticast && !enableMulticast then none else some m

/-! ## TCP sessions -/

/-- What a read completes with. -/
inductive ReadResult where
  | bytes (buff : Bytes)
  | error
deriving DecidableEq

/-- A session: whether a read is outstanding, and the messages it has dispatched. -/
structure Session where
  reading : Bool
  dispatched : List MetaMessage
deriving DecidableEq

namespace Session

/-- The buffer of a read. -/
def buffSize : Nat := 1500

/-- `session::start` -/
def start : Session := ⟨true, []⟩

variable (enableMulticast : Bool) (src : Endpoint)

/-- `session::handle_read`. The socket is closed after the first read, whatever it brought. -/
def handleRead (s : Session) : ReadResult → Except Wire.Error Session
  | .error => .ok { s with reading := false }
  | .bytes buff => (received enableMulticast src buff).map fun m =>
    ⟨false, s.dispatched ++ m.toList⟩

/-- The reads of a connection. What comes when no read is outstanding is not read. -/
def run : List ReadResult → Session → Except Wire.Error Session
  | [], s => .ok s
  | r :: rs, s => if s.reading then (s.handleRead enableMulticast src r).bind (run rs) else .ok s

end Session

/-- The reads by which a stream may arrive: each returns some of the pending bytes, as many as the
buffer holds at most. -/
structure Segmentation (stream : Bytes) (chunks : List Bytes) : Prop where
  joined : chunks.flatten = stream
  nonempty : ∀ c ∈ chunks, c ≠ []
  fits : ∀ c ∈ chunks, c.length ≤ Session.buffSize

/-- A frame with the payload it announces. -/
def Whole (f : Frame) : Prop := f.payload.length = f.plength.toNat
deriving Decidable

/-! ## What is dispatched -/

section

variable {enableMulticast : Bool} {src : Endpoint} {f : Frame} {m : MetaMessage}

/-- A session ends with its first read. -/
theorem run_start {buff : Bytes} {rs : List ReadResult} :
    Session.run enableMulticast src (.bytes buff :: rs) .start =
      (received enableMulticast src buff).map fun m => ⟨false, m.toList⟩ := by
  rw [Session.run, if_pos (show Session.start.reading = true from rfl), Session.handleRead]
  cases received enableMulticast src buff with
  | error e => rfl
  | ok m => cases rs <;> rfl

theorem received_some {buff : Bytes} (h : received enableMulticast src buff = .ok (some m)) :
    (Frame.cast buff).isSome := by
  unfold received at h
  cases hcast : Frame.cast buff with
  | none => simp [hcast] at h
  | some fm => rfl

/-- A part of a frame that is accepted is all of it. -/
theorem cast_part {part rest : Bytes} (h : Whole f) (hjoin : part ++ rest = f.bytes)
    (hcast : (Frame.cast part).isSome) : rest = [] := by
  unfold Frame.cast at hcast
  split at hcast
  next h0 h1 h2 h3 h4 h5 h6 h7 payload =>
    simp only [Frame.bytes, cons_append, cons.injEq] at hjoin
    obtain ⟨rfl, rfl, rfl, rfl, rfl, rfl, rfl, rfl, hpayload⟩ := hjoin
    have hlen := congrArg length hpayload
    rw [length_append, h] at hlen
    dsimp only at hcast
    split_ifs at hcast with hshort
    · simp at hcast
    · simp only [Frame.length, Frame.plength] at hshort hlen
      exact length_eq_zero_iff.mp (by omega)
  next => simp at hcast

end

/-- A session dispatches what was written exactly if this was nothing, or one frame that is read at
once, can be decoded and is not refused as a multicast. -/
theorem session_framing_iff (enableMulticast : Bool) (src : Endpoint) (frames : List Frame)
    (hwhole : ∀ f ∈ frames, Whole f) (chunks : List Bytes)
    (hseg : Segmentation (frames.flatMap Frame.bytes) chunks) :
    (∃ s, Session.run enableMulticast src (chunks.map .bytes ++ [.error]) .start = .ok s ∧
      frames.mapM (MetaMessage.ofFrame src) = .ok s.dispatched) ↔
    frames = [] ∨ ∃ f m, frames = [f] ∧ chunks = [f.bytes] ∧ MetaMessage.ofFrame src f = .ok m ∧
      (m.isMulticast → enableMulticast) := by
  constructor
  · rintro ⟨s, hrun, hall⟩
    cases chunks with
    | nil =>
      cases frames with
      | nil => exact .inl rfl
      | cons f fs => simpa [Frame.bytes] using hseg.joined
    | cons c cs =>
      rw [map_cons, cons_append, run_start] at hrun
      obtain ⟨sent, hsent, rfl⟩ := map_eq_ok.mp hrun
      -- there is a frame, since there is a byte, and only one, since at most one is dispatched
      have h := mapM_eq_ok hall
      rcases frames with _ | ⟨f, _ | ⟨_, _⟩⟩
      · have hc : c = [] := (append_eq_nil_iff.mp hseg.joined).1
        exact absurd hc (hseg.nonempty c (.head _))
      · have hf := hwhole f (.head _)
        have hjoin : c ++ cs.flatten = f.bytes := by simpa using hseg.joined
        cases sent with
        | none => simp at h
        | some m =>
          have hrest := cast_part hf hjoin (received_some hsent)
          obtain rfl : cs = [] := eq_nil_iff_forall_not_mem.mpr fun x hx =>
            hseg.nonempty x (.tail _ hx) (flatten_eq_nil_iff.mp hrest x hx)
          rw [hrest, append_nil] at hjoin
          subst hjoin
          rw [received, Frame.cast_bytes hf] at hsent
          obtain ⟨m', hm', heq⟩ := map_eq_ok.mp hsent
          refine .inr ⟨f, m', rfl, rfl, hm', fun hmulti => ?_⟩
          by_contra hoff
          simp [hmulti, hoff] at heq
      · cases sent <;> simp at h
  · rintro (rfl | ⟨f, m, rfl, rfl, hm, hmulti⟩)
    · obtain rfl : chunks = [] := by
        cases chunks with
        | nil => rfl
        | cons c cs =>
          exact absurd (by simpa using hseg.joined : c = [] ∧ _).1 (hseg.nonempty c (.head _))
      exact ⟨⟨false, []⟩, rfl, rfl⟩
    · refine ⟨⟨false, [m]⟩, ?_, ?_⟩
      · rw [map_singleton, singleton_append, run_start, received,
          Frame.cast_bytes (hwhole f (.head _))]
        dsimp only
        rw [hm]
        cases hm : m.isMulticast <;> simp_all [Except.map]
      · rw [mapM_cons, hm]
        rfl

/-- A request from `A` to `B` without parameters. -/
def sampleFrame : Frame :=
  ⟨0x18, 0, 0x14, 1, 0, 7, 0, 8, [1, 2, 1, 65, 2, 2, 1, 66]⟩

/-- The frame, read at once. -/
theorem session_framing_sample :
    Whole sampleFrame ∧ Segmentation sampleFrame.bytes [sampleFrame.bytes] ∧
    ∃ s, Session.run false ⟨[], 0, 0⟩ [.bytes sampleFrame.bytes, .error] .start = .ok s ∧
      [sampleFrame].mapM (MetaMessage.ofFrame ⟨[], 0, 0⟩) = .ok s.dispatched := by
  have hwhole : Whole sampleFrame := by decide
  have hseg : Segmentation sampleFrame.bytes [sampleFrame.bytes] := ⟨rfl, by decide, by decide⟩
  refine ⟨hwhole, hseg, ?_⟩
  refine (session_framing_iff false ⟨[], 0, 0⟩ [sampleFrame] (by simpa using hwhole)
    [sampleFrame.bytes] hseg).mpr (.inr ⟨sampleFrame, _, rfl, rfl, rfl, by decide⟩)

/-- The frame split behind its header is not dispatched, and of two frames that are read together
only the first one is. -/
theorem session_not_framing :
    Whole sampleFrame ∧
    (Segmentation sampleFrame.bytes [sampleFrame.bytes.take 8, sampleFrame.bytes.drop 8] ∧
      Session.run false ⟨[], 0, 0⟩
        [.bytes (sampleFrame.bytes.take 8), .bytes (sampleFrame.bytes.drop 8), .error] .start =
          .ok ⟨false, []⟩) ∧
    Segmentation (sampleFrame.bytes ++ sampleFrame.bytes) [sampleFrame.bytes ++ sampleFrame.bytes] ∧
      (Session.run false ⟨[], 0, 0⟩
        [.bytes (sampleFrame.bytes ++ sampleFrame.bytes), .error] .start).map
          (fun s => s.dispatched.length) = .ok 1 :=
  ⟨by decide, ⟨⟨rfl, by decide, by decide⟩, rfl⟩, ⟨rfl, by decide, by decide⟩, rfl⟩

end Odtone.Mihf
