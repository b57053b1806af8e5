import SocketCPlusPlus.Foundation.History

/-! The datagram server that answers with the time of day. One member holds the sender of the last
datagram, and both the receive that is under way and the reply refer to it. -/
namespace SocketCPlusPlus.Socket
open Foundation

/-- The member for the sender, the operations under way and the handlers that have still to run, with
what they are given. -/
structure UDPServer (Endpoint : Type) where
  remoteEndpoint : Endpoint
  receives : Nat
  completions : List Bool
  sends : List (Endpoint × String)

namespace UDPServer
variable {Endpoint : Type}

def startReceive (server : UDPServer Endpoint) : UDPServer Endpoint :=
  { server with receives := server.receives + 1 }

/-- The socket is bound; the member is as its constructor leaves it. -/
def new (unspecified : Endpoint) : UDPServer Endpoint :=
  startReceive ⟨unspecified, 0, [], []⟩

/-- The reply keeps a copy of where it goes. -/
def handleReceive (server : UDPServer Endpoint) (error : Bool) (daytime : String) :
    UDPServer Endpoint :=
  if !error then
    { server with sends := server.sends ++ [(server.remoteEndpoint, daytime)] }.startReceive
  else server

inductive Event (Endpoint : Type) where
  | receive (sender : Endpoint)
  | receiveFails (sender : Endpoint)
  | handle (error : Bool) (daytime : String)
  | sent

/-- A receive that ends writes the member, well or not, and its handler may run later. -/
inductive Step : UDPServer Endpoint → Event Endpoint → UDPServer Endpoint → Prop
  | receive (server : UDPServer Endpoint) (sender : Endpoint) : 0 < server.receives →
      Step server (.receive sender)
        { server with
          remoteEndpoint := sender
          receives := server.receives - 1
          completions := server.completions ++ [false] }
  | receiveFails (server : UDPServer Endpoint) (sender : Endpoint) : 0 < server.receives →
      Step server (.receiveFails sender)
        { server with
          remoteEndpoint := sender
          receives := server.receives - 1
          completions := server.completions ++ [true] }
  | handle (server : UDPServer Endpoint) (error : Bool) (daytime : String)
      (before after : List Bool) : server.completions = before ++ error :: after →
      Step server (.handle error daytime)
        ({ server with completions := before ++ after }.handleReceive error daytime)
  | sent (server : UDPServer Endpoint) (before after : List (Endpoint × String))
      (send : Endpoint × String) : server.sends = before ++ send :: after →
      Step server .sent { server with sends := before ++ after }

def received (t : Taken (UDPServer Endpoint) (Event Endpoint)) : List Endpoint :=
  match t.event with
  | .receive sender => [sender]
  | _ => []

/-- Where the replies go that a step starts, behind those under way. -/
def replied (t : Taken (UDPServer Endpoint) (Event Endpoint)) : List Endpoint :=
  (t.after.sends.drop t.before.sends.length).map Prod.fst

/-- A handler is told that its receive failed. -/
def failed (t : Taken (UDPServer Endpoint) (Event Endpoint)) : Bool :=
  match t.event with
  | .handle true _ => true
  | _ => false

/-- The senders that wait for their reply to be started. -/
def pending (server : UDPServer Endpoint) : List Endpoint :=
  (server.completions.filter (! ·)).map fun _ => server.remoteEndpoint

section Runs
variable {server server' : UDPServer Endpoint}

theorem step_one {event : Event Endpoint} (h : Step server event server') :
    server'.receives + server'.completions.length + (failed ⟨server, event, server'⟩).toNat =
      server.receives + server.completions.length := by
  cases h with
  | receive sender hreceives =>
    rw [List.length_append, List.length_singleton]
    change server.receives - 1 + (server.completions.length + 1) + 0 = _
    omega
  | receiveFails sender hreceives =>
    rw [List.length_append, List.length_singleton]
    change server.receives - 1 + (server.completions.length + 1) + 0 = _
    omega
  | handle error daytime before after hcompletions =>
    rw [hcompletions, List.length_append, List.length_cons]
    cases error with
    | false =>
      change server.receives + 1 + (before ++ after).length + 0 = _
      rw [List.length_append]
      omega
    | true =>
      change server.receives + (before ++ after).length + 1 = _
      rw [List.length_append]
      omega
  | sent before after send hsends => rfl

theorem one_of_run {unspecified : Endpoint}
    {taken : List (Taken (UDPServer Endpoint) (Event Endpoint))}
    (h : History Step (new unspecified) taken server) :
    server.receives + server.completions.length + taken.countP failed = 1 := by
  induction h with
  | start => rfl
  | @step taken before after event _ hs ih =>
    have hone := step_one hs
    have hlast : [⟨before, event, after⟩].countP failed = (failed ⟨before, event, after⟩).toNat := by
      rw [List.countP_singleton]
      cases failed ⟨before, event, after⟩ <;> rfl
    rw [List.countP_append, hlast]
    omega

/-- A receive that is under way has no handler waiting, so the member that it writes is not read any
more. -/
theorem step_pending (hone : server.receives + server.completions.length ≤ 1)
    {event : Event Endpoint} (h : Step server event server') :
    server.pending ++ received ⟨server, event, server'⟩ =
      replied ⟨server, event, server'⟩ ++ server'.pending := by
  cases h with
  | receive sender hreceives =>
    have hnone : server.completions = [] := List.length_eq_zero_iff.mp (by omega)
    simp [pending, received, replied, hnone]
  | receiveFails sender hreceives =>
    have hnone : server.completions = [] := List.length_eq_zero_iff.mp (by omega)
    simp [pending, received, replied, hnone]
  | handle error daytime before after hcompletions =>
    rw [hcompletions, List.length_append, List.length_cons] at hone
    have hbefore : before = [] := List.length_eq_zero_iff.mp (by omega)
    have hafter : after = [] := List.length_eq_zero_iff.mp (by omega)
    subst hbefore hafter
    cases error <;> simp [pending, received, replied, hcompletions, handleReceive, startReceive]
  | sent before after send hsends =>
    have hless : (before ++ after).length ≤ server.sends.length := by
      rw [hsends, List.length_append, List.length_append, List.length_cons]
      omega
    rw [replied, List.drop_eq_nil_of_le hless]
    exact List.append_nil _

/-- Every datagram is answered once, in order and to its own sender, but for one whose handler waits,
although the next receive overwrites the member that names it. Once a receive has failed and its
handler has run, nothing is received any more. -/
theorem daytime_answers {unspecified : Endpoint}
    {taken : List (Taken (UDPServer Endpoint) (Event Endpoint))}
    (h : History Step (new unspecified) taken server) :
    taken.flatMap received = taken.flatMap replied ++ server.pending ∧
      server.pending.length ≤ 1 ∧
      server.receives + server.completions.length + taken.countP failed = 1 := by
  have hone := one_of_run h
  refine ⟨?_, ?_, hone⟩
  · apply h.queued (fun server => server.receives + server.completions.length ≤ 1) pending received
      replied (Nat.le_refl 1)
    intro before event after hinv hs
    have hstep := step_one hs
    exact ⟨step_pending hinv hs, by omega⟩
  · rw [pending, List.length_map]
    have hle := List.length_filter_le (! ·) server.completions
    omega

end Runs

/-- A datagram is answered while the next one is received, and the receive after it fails. -/
theorem sample_daytime_answers :
    let first : UDPServer Nat := ⟨1, 0, [false], []⟩
    let answered : UDPServer Nat := ⟨1, 1, [], [(1, "noon")]⟩
    let failing : UDPServer Nat := ⟨2, 0, [true], [(1, "noon")]⟩
    let taken : List (Taken (UDPServer Nat) (Event Nat)) :=
      [⟨new 0, .receive 1, first⟩, ⟨first, .handle false "noon", answered⟩,
        ⟨answered, .receiveFails 2, failing⟩]
    taken.flatMap received = taken.flatMap replied ++ failing.pending ∧
      failing.pending.length ≤ 1 ∧
      failing.receives + failing.completions.length + taken.countP failed = 1 := by
  intro first answered failing taken
  have hfirst : Step (new 0) (.receive 1) first := .receive (new 0) 1 Nat.one_pos
  have hanswered : Step first (.handle false "noon") answered :=
    .handle first false "noon" [] [] rfl
  have hfailing : Step answered (.receiveFails 2) failing := .receiveFails answered 2 Nat.one_pos
  exact daytime_answers (.step (.step (.step .start hfirst) hanswered) hfailing)

end UDPServer
end SocketCPlusPlus.Socket
