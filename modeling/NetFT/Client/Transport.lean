import Mathlib.Data.Finset.Option
import NetFT.Client.Impl
import NetFT.Library.Handles

/-! `UdpTransport` on the POSIX socket interface. An operation makes system calls on descriptors
and updates the members; what the resolver, `socket` and `connect` answer is given. -/

namespace NetFT.Client
open Library

inductive SocketCall
  | socket (fd : Nat)
  | connect (fd : Nat) (ok : Bool)
  | send (fd : Nat)
  | poll (fd : Nat)
  | recv (fd : Nat)
  | shutdown (fd : Nat)
  | close (fd : Nat)
  deriving DecidableEq, Repr

/-- A descriptor is acquired by `socket` and released by `close`. -/
def SocketCall.op : SocketCall → HandleOp Nat
  | .socket fd => .acquire fd
  | .close fd => .release fd
  | .connect fd _ | .send fd | .poll fd | .recv fd | .shutdown fd => .use fd

def ops (calls : List SocketCall) : List (HandleOp Nat) := calls.map SocketCall.op

/-- What `socket` and `connect` answer for an address, with `errno` where they fail. -/
inductive Answer
  | noSocket (error : Nat)
  | refused (fd : Nat) (error : Nat)
  | accepted (fd : Nat)
  deriving DecidableEq, Repr

/-- What `getaddrinfo` answers, with the answers for the addresses it returns. -/
inductive Resolution
  | failed (text : String)
  | addresses (answers : List Answer)

/-- The outcome of an operation: the text of the exception, if it throws, the members and the
system calls. -/
structure Performed where
  error : Option String := none
  transport : UdpTransport
  calls : List SocketCall := []

/-- The loop over the addresses, with the last error before it. -/
structure Connecting where
  socket : Option Nat
  lastError : Nat
  calls : List SocketCall

def connectAny : List Answer → Nat → Connecting
  | [], lastError => { socket := none, lastError, calls := [] }
  | .noSocket error :: answers, _ => connectAny answers error
  | .accepted fd :: _, lastError =>
    { socket := some fd, lastError, calls := [.socket fd, .connect fd true] }
  | .refused fd error :: answers, _ =>
    let rest := connectAny answers error
    { rest with calls := [.socket fd, .connect fd false, .close fd] ++ rest.calls }

namespace UdpTransport

def closeCalls (transport : UdpTransport) : List SocketCall :=
  match transport.socket with
  | none => []
  | some fd => [.close fd]

def connect (strerror : Nat → String) (transport : UdpTransport) : Resolution → Performed
  | .failed text => { error := some ("failed to resolve sensor: " ++ text), transport }
  | .addresses answers =>
    let attempt := connectAny answers 0
    match attempt.socket with
    | none =>
      { error := some ("failed to connect UDP socket: " ++ strerror attempt.lastError)
        transport
        calls := attempt.calls }
    | some fd =>
      { transport := { socket := some fd, shutdownRequested := false }
        calls := attempt.calls ++ transport.closeCalls }

/-- `send` with the answer of the system call; without a socket it throws before it. -/
def send (transport : UdpTransport) : Performed :=
  match transport.socket with
  | none => { error := some "UDP socket is not connected", transport }
  | some fd => { transport, calls := [.send fd] }

def shutdown (transport : UdpTransport) : Performed where
  transport := { transport with shutdownRequested := true }
  calls :=
    match transport.socket with
    | none => []
    | some fd => [.shutdown fd]

def close (transport : UdpTransport) : Performed where
  transport := { socket := none, shutdownRequested := true }
  calls := transport.closeCalls

/-- The descriptors that the transport holds. -/
def descriptors (transport : UdpTransport) : Finset Nat := transport.socket.toFinset

end UdpTransport

/-! ## The operations and the open descriptors -/

section
variable {transport : UdpTransport} {answers : List Answer} {resolution : Resolution}
  {strerror : Nat → String} {s : Finset Nat}

theorem ops_append (calls calls' : List SocketCall) : ops (calls ++ calls') = ops calls ++ ops calls' :=
  List.map_append

/-- What the loop over the addresses leaves open is the descriptor it returns. -/
theorem connectAny_lawful (answers : List Answer) (lastError : Nat)
    (hg : HandleOp.Granted s (ops (connectAny answers lastError).calls)) :
    HandleOp.Lawful s (ops (connectAny answers lastError).calls) ∧
      HandleOp.held s (ops (connectAny answers lastError).calls) =
        (connectAny answers lastError).socket.toFinset ∪ s ∧
      ∀ fd, (connectAny answers lastError).socket = some fd → fd ∉ s := by
  induction answers generalizing lastError with
  | nil => simp [connectAny, ops, HandleOp.Lawful]
  | cons answer answers ih =>
    cases answer with
    | noSocket error => exact ih error hg
    | accepted fd =>
      simp_all [connectAny, ops, HandleOp.Lawful, HandleOp.Granted, HandleOp.held,
        HandleOp.advance, SocketCall.op]
    | refused fd error =>
      obtain ⟨hfresh, hg⟩ := hg
      have herase : (insert fd s).erase fd = s := Finset.erase_insert hfresh
      have hg : HandleOp.Granted ((insert fd s).erase fd) (ops (connectAny answers error).calls) := hg
      rw [herase] at hg
      obtain ⟨hl, hheld, hsocket⟩ := ih error hg
      refine ⟨?_, ?_, hsocket⟩
      · simp only [connectAny, ops, List.map_cons, SocketCall.op, List.cons_append,
          List.nil_append, HandleOp.Lawful, Finset.mem_insert_self, true_and, herase]
        exact hl
      · simp only [connectAny, ops, List.map_cons, SocketCall.op, List.cons_append,
          List.nil_append, HandleOp.held_cons, HandleOp.advance, herase]
        exact hheld

theorem closeCalls_lawful (transport : UdpTransport) (hle : transport.descriptors ⊆ s) :
    HandleOp.Lawful s (ops transport.closeCalls) ∧
      HandleOp.held s (ops transport.closeCalls) = s \ transport.descriptors := by
  cases hs : transport.socket with
  | none =>
    simp [UdpTransport.closeCalls, UdpTransport.descriptors, hs, ops, HandleOp.Lawful]
  | some fd =>
    simp only [UdpTransport.descriptors, hs, Option.toFinset_some, Finset.singleton_subset_iff] at hle
    simp [UdpTransport.closeCalls, UdpTransport.descriptors, hs, ops, HandleOp.Lawful,
      SocketCall.op, hle, HandleOp.held_cons, HandleOp.advance, Finset.sdiff_singleton_eq_erase]

/-- If the transport holds the open descriptors before an operation, it does so after it, and the
operation only uses and closes descriptors that are open. -/
structure Performed.Keeps (before : UdpTransport) (r : Performed) : Prop where
  lawful : HandleOp.Lawful before.descriptors (ops r.calls)
  held : HandleOp.held before.descriptors (ops r.calls) = r.transport.descriptors

theorem UdpTransport.connect_keeps
    (hg : HandleOp.Granted transport.descriptors (ops (transport.connect strerror resolution).calls)) :
    (transport.connect strerror resolution).Keeps transport := by
  cases resolution with
  | failed text => exact ⟨trivial, rfl⟩
  | addresses answers =>
    simp only [connect] at hg ⊢
    split at hg
    · rename_i hs
      obtain ⟨hl, hheld, -⟩ := connectAny_lawful answers 0 hg
      simp only [hs, Option.toFinset_none, Finset.empty_union] at hheld ⊢
      exact ⟨hl, hheld⟩
    · rename_i fd hs
      rw [ops_append, HandleOp.granted_append] at hg
      obtain ⟨hl, hheld, hfresh⟩ := connectAny_lawful answers 0 hg.1
      have hclose := closeCalls_lawful transport
        (s := HandleOp.held transport.descriptors (ops (connectAny answers 0).calls))
        (hheld ▸ Finset.subset_union_right)
      constructor
      · rw [ops_append, HandleOp.lawful_append]
        exact ⟨hl, hclose.1⟩
      · rw [ops_append, HandleOp.held_append, hclose.2, hheld, hs, Finset.union_sdiff_right,
          Option.toFinset_some, Finset.sdiff_eq_self_of_disjoint
            (Finset.disjoint_singleton_left.mpr (hfresh fd hs))]
        rfl

theorem UdpTransport.send_keeps : transport.send.Keeps transport := by
  constructor <;> cases hs : transport.socket <;>
    simp [send, hs, ops, HandleOp.Lawful, SocketCall.op, descriptors, HandleOp.held_cons,
      HandleOp.advance]

theorem UdpTransport.shutdown_keeps : transport.shutdown.Keeps transport := by
  constructor <;> cases hs : transport.socket <;>
    simp [shutdown, hs, ops, HandleOp.Lawful, SocketCall.op, descriptors, HandleOp.held_cons,
      HandleOp.advance]

theorem UdpTransport.close_keeps : transport.close.Keeps transport where
  lawful := (closeCalls_lawful transport (Finset.Subset.refl _)).1
  held := by
    rw [close, (closeCalls_lawful transport (Finset.Subset.refl _)).2, Finset.sdiff_self]
    rfl

/-- The first address that connects decides. -/
theorem connectAny_socket (answers : List Answer) (lastError fd : Nat) :
    (connectAny answers lastError).socket = some fd ↔
      ∃ before after, answers = before ++ .accepted fd :: after ∧
        ∀ fd', .accepted fd' ∉ before := by
  induction answers generalizing lastError with
  | nil => simp [connectAny]
  | cons answer answers ih =>
    cases answer with
    | accepted fd' =>
      simp only [connectAny, Option.some.injEq]
      constructor
      · rintro rfl
        exact ⟨[], answers, rfl, by simp⟩
      · rintro ⟨before, after, heq, hnot⟩
        cases before with
        | nil => cases heq; rfl
        | cons answer before =>
          cases heq
          exact absurd List.mem_cons_self (hnot fd')
    | noSocket | refused =>
      simp only [connectAny, ih]
      constructor
      · rintro ⟨before, after, rfl, hnot⟩
        exact ⟨_ :: before, after, rfl, by simpa using hnot⟩
      · rintro ⟨before, after, heq, hnot⟩
        cases before with
        | nil => cases heq
        | cons answer before =>
          cases heq
          exact ⟨before, after, rfl, fun fd' hmem => hnot fd' (List.mem_cons_of_mem _ hmem)⟩

theorem mem_descriptors (fd : Nat) : fd ∈ transport.descriptors ↔ transport.socket = some fd := by
  simp [UdpTransport.descriptors]

theorem UdpTransport.connect_throws (h : (transport.connect strerror resolution).error ≠ none) :
    (transport.connect strerror resolution).transport = transport := by
  cases resolution with
  | failed text => rfl
  | addresses answers =>
    simp only [connect] at h ⊢
    split at h
    · rfl
    · exact absurd rfl h

theorem UdpTransport.connect_returns (h : (transport.connect strerror resolution).error = none) :
    ∃ answers fd, resolution = .addresses answers ∧ (connectAny answers 0).socket = some fd ∧
      (transport.connect strerror resolution).transport =
        { socket := some fd, shutdownRequested := false } := by
  cases resolution with
  | failed text => cases h
  | addresses answers =>
    simp only [connect] at h ⊢
    split at h
    · cases h
    · rename_i fd hs
      exact ⟨answers, fd, rfl, hs, rfl⟩

/-- `connect` throws, leaves the members alone and has closed what it opened; or it keeps the
descriptor of the first address that connects and has closed all others, with the previous one. -/
theorem UdpTransport.connect_law
    (hg : HandleOp.Granted transport.descriptors (ops (transport.connect strerror resolution).calls)) :
    ((transport.connect strerror resolution).error ≠ none ∧
      (transport.connect strerror resolution).transport = transport ∧
      ∀ fd, HandleOp.released fd (ops (transport.connect strerror resolution).calls) =
        HandleOp.acquired fd (ops (transport.connect strerror resolution).calls)) ∨
    ((transport.connect strerror resolution).error = none ∧
      ∃ before fd after, resolution = .addresses (before ++ .accepted fd :: after) ∧
        (∀ fd', .accepted fd' ∉ before) ∧
        (transport.connect strerror resolution).transport =
          { socket := some fd, shutdownRequested := false } ∧
        ∀ fd', HandleOp.released fd' (ops (transport.connect strerror resolution).calls) +
            (if fd' = fd then 1 else 0) =
          HandleOp.acquired fd' (ops (transport.connect strerror resolution).calls) +
            if transport.socket = some fd' then 1 else 0) := by
  have hkeeps := connect_keeps hg
  have hbalance := HandleOp.balance hg hkeeps.lawful
  rw [hkeeps.held] at hbalance
  by_cases herror : (transport.connect strerror resolution).error = none
  · right
    obtain ⟨answers, fd, rfl, hs, htransport⟩ := connect_returns herror
    obtain ⟨before, after, rfl, hnot⟩ := (connectAny_socket answers 0 fd).mp hs
    refine ⟨herror, before, fd, after, rfl, hnot, htransport, fun fd' => ?_⟩
    have hfd := hbalance fd'
    simp only [mem_descriptors, htransport, Option.some.injEq] at hfd
    rw [hfd]
    simp only [eq_comm]
  · refine .inl ⟨herror, connect_throws herror, fun fd => ?_⟩
    have hfd := hbalance fd
    rw [connect_throws herror] at hfd
    exact (Nat.add_right_cancel hfd).symm

end

end NetFT.Client
