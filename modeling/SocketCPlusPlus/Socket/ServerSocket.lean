import Mathlib.Data.List.Dedup
import Mathlib.Data.List.Nodup
import Mathlib.Data.List.Induction

/-! The listeners of a server socket, known by their addresses. -/
namespace SocketCPlusPlus.Socket

structure ServerSocket (Observer : Type) where
  listeners : List Observer

namespace ServerSocket
variable {Observer : Type}

def new : ServerSocket Observer := ⟨[]⟩

section Listeners
variable [DecidableEq Observer]

/-- A listener that is already in there stays where it is. -/
def register (socket : ServerSocket Observer) (listener : Observer) : ServerSocket Observer :=
  if listener ∈ socket.listeners then socket else ⟨socket.listeners ++ [listener]⟩

def unregister (socket : ServerSocket Observer) (listener : Observer) : ServerSocket Observer :=
  if listener ∈ socket.listeners then ⟨socket.listeners.erase listener⟩ else socket

end Listeners

def getNumListeners (socket : ServerSocket Observer) : Nat := socket.listeners.length

inductive Call (Observer : Type) where
  | register (listener : Observer)
  | unregister (listener : Observer)
  deriving DecidableEq

def Call.listener : Call Observer → Observer
  | .register listener | .unregister listener => listener

variable [DecidableEq Observer]

def call (socket : ServerSocket Observer) : Call Observer → ServerSocket Observer
  | .register listener => socket.register listener
  | .unregister listener => socket.unregister listener

/-- The socket after a sequence of calls. -/
def after (calls : List (Call Observer)) : ServerSocket Observer := calls.foldl call new

/-- The last call about a listener. -/
def lastCall (listener : Observer) (calls : List (Call Observer)) : Option (Call Observer) :=
  (calls.filter (·.listener = listener)).getLast?

/-- The listener that a call puts on the list and that no later call takes off it. -/
def standing (calls : List (Call Observer)) (i : Nat) : Option Observer :=
  match calls[i]? with
  | some (.register listener) =>
    if lastCall listener (calls.take i) ≠ some (.register listener) ∧
        .unregister listener ∉ calls.drop (i + 1) then some listener
    else none
  | _ => none

theorem lastCall_snoc (calls : List (Call Observer)) (c : Call Observer) (listener : Observer) :
    lastCall listener (calls ++ [c]) =
      if c.listener = listener then some c else lastCall listener calls := by
  rw [lastCall, List.filter_append]
  split
  · next h => rw [List.filter_cons_of_pos (by simpa using h), List.filter_nil, List.getLast?_concat]
  · next h =>
    rw [List.filter_cons_of_neg (by simpa using h), List.filter_nil, List.append_nil, lastCall]

theorem listeners_call {socket : ServerSocket Observer} (h : socket.listeners.Nodup)
    (c : Call Observer) : (socket.call c).listeners =
      (socket.listeners.filter fun listener => c ≠ .unregister listener) ++
        match c with
        | .register listener => if listener ∈ socket.listeners then [] else [listener]
        | .unregister _ => [] := by
  cases c with
  | register listener =>
    have hall : socket.listeners.filter
        (fun other => Call.register listener ≠ .unregister other) = socket.listeners := by
      simp
    rw [hall, call, register]
    by_cases hin : listener ∈ socket.listeners <;> simp [hin]
  | unregister listener =>
    have hothers : socket.listeners.filter
        (fun other => Call.unregister listener ≠ .unregister other) =
          socket.listeners.erase listener := by
      rw [h.erase_eq_filter]
      refine List.filter_congr fun other _ => ?_
      simp [bne, Bool.beq_eq_decide_eq, eq_comm]
    rw [hothers, List.append_nil, call, unregister]
    split
    · rfl
    · next hnot => exact (List.erase_of_not_mem hnot).symm

theorem nodup_call {socket : ServerSocket Observer} (h : socket.listeners.Nodup)
    (c : Call Observer) : (socket.call c).listeners.Nodup := by
  rw [listeners_call h]
  cases c with
  | register listener =>
    dsimp only
    by_cases hin : listener ∈ socket.listeners
    · rw [if_pos hin, List.append_nil]
      exact h.filter _
    · rw [if_neg hin]
      refine (h.filter _).append (List.nodup_singleton _) (List.disjoint_singleton.mpr ?_)
      exact fun hmem => hin (List.mem_filter.mp hmem).1
  | unregister listener =>
    rw [List.append_nil]
    exact h.filter _

theorem mem_call {socket : ServerSocket Observer} (h : socket.listeners.Nodup) (c : Call Observer)
    (listener : Observer) :
    listener ∈ (socket.call c).listeners ↔
      if c.listener = listener then c = .register listener else listener ∈ socket.listeners := by
  rw [listeners_call h, List.mem_append, List.mem_filter]
  cases c with
  | register added =>
    by_cases heq : added = listener
    · subst heq
      by_cases hin : added ∈ socket.listeners <;> simp [Call.listener, hin]
    · by_cases hin : added ∈ socket.listeners <;> simp [Call.listener, hin, heq, Ne.symm heq]
  | unregister removed =>
    by_cases heq : removed = listener <;> simp [Call.listener, heq]

/-- Of the calls before it another one leaves those standing that it does not undo. -/
theorem standing_snoc_lt {calls : List (Call Observer)} {i : Nat} (hi : i < calls.length)
    (c : Call Observer) :
    standing (calls ++ [c]) i = (standing calls i).filter fun listener => c ≠ .unregister listener := by
  rw [standing, standing, List.getElem?_append_left hi,
    List.take_append_of_le_length (Nat.le_of_lt hi), List.drop_append_of_le_length hi]
  rcases calls[i]? with _ | listener | listener
  · rfl
  · by_cases hold : lastCall listener (calls.take i) ≠ some (.register listener) ∧
        .unregister listener ∉ calls.drop (i + 1)
    · have hnew : (lastCall listener (calls.take i) ≠ some (.register listener) ∧
          .unregister listener ∉ calls.drop (i + 1) ++ [c]) ↔ c ≠ .unregister listener := by
        rw [List.mem_append, List.mem_singleton, not_or, ← and_assoc, and_iff_right hold, ne_comm]
      refine (if_congr hnew rfl rfl).trans ?_
      dsimp only
      rw [if_pos hold]
      by_cases hc : c = .unregister listener <;> simp [hc, Option.filter]
    · have hnew : ¬ (lastCall listener (calls.take i) ≠ some (.register listener) ∧
          .unregister listener ∉ calls.drop (i + 1) ++ [c]) :=
        fun h => hold ⟨h.1, fun hmem => h.2 (List.mem_append_left _ hmem)⟩
      exact (if_neg hnew).trans (by simp [hold])
  · rfl

theorem standing_snoc_last (calls : List (Call Observer)) (c : Call Observer) :
    standing (calls ++ [c]) calls.length =
      match c with
      | .register listener =>
        if lastCall listener calls ≠ some (.register listener) then some listener else none
      | .unregister _ => none := by
  rw [standing, List.getElem?_concat_length, List.take_left, List.drop_of_length_le (by simp)]
  cases c with
  | register listener => simp only [List.not_mem_nil, not_false_iff, and_true]
  | unregister listener => rfl

theorem listeners_of_calls (calls : List (Call Observer)) :
    (after calls).listeners.Nodup ∧
      (∀ listener, listener ∈ (after calls).listeners ↔
        lastCall listener calls = some (.register listener)) ∧
      (after calls).listeners = (List.range calls.length).filterMap (standing calls) := by
  induction calls using List.reverseRecOn with
  | nil => exact ⟨List.nodup_nil, fun _ => by simp [after, new, lastCall], rfl⟩
  | append_singleton calls c ih =>
    obtain ⟨hnodup, hmem, hlist⟩ := ih
    have hafter : after (calls ++ [c]) = (after calls).call c := List.foldl_concat ..
    have hkept : (List.range calls.length).filterMap (standing (calls ++ [c])) =
        (after calls).listeners.filter fun listener => c ≠ .unregister listener := by
      rw [hlist, List.filter_filterMap]
      exact List.filterMap_congr fun i hi => standing_snoc_lt (List.mem_range.mp hi) c
    rw [hafter]
    refine ⟨nodup_call hnodup c, fun listener => ?_, ?_⟩
    · rw [mem_call hnodup, lastCall_snoc]
      split
      · exact (Option.some_inj).symm
      · exact hmem listener
    · rw [listeners_call hnodup, List.length_append, List.length_singleton, List.range_succ,
        List.filterMap_append, hkept, List.filterMap_cons, List.filterMap_nil, standing_snoc_last]
      congr 1
      cases c with
      | register listener =>
        by_cases hold : lastCall listener calls = some (.register listener)
        · simp [hmem, hold]
        · simp [hmem, hold]
      | unregister listener => rfl

/-- After any calls the socket has the listeners about which the last call was a registration, each
of them once and in the order of the registrations that put them there, and counts them. -/
theorem listeners_after (calls : List (Call Observer)) :
    (after calls).listeners = (List.range calls.length).filterMap (standing calls) ∧
      (after calls).listeners.Nodup ∧
      (∀ listener, listener ∈ (after calls).listeners ↔
        lastCall listener calls = some (.register listener)) ∧
      (after calls).getNumListeners = ((calls.map Call.listener).dedup.filter
        fun listener => lastCall listener calls = some (.register listener)).length := by
  obtain ⟨hnodup, hmem, hlist⟩ := listeners_of_calls calls
  refine ⟨hlist, hnodup, hmem, List.Perm.length_eq ?_⟩
  rw [List.perm_ext_iff_of_nodup hnodup ((List.nodup_dedup _).filter _)]
  intro listener
  rw [List.mem_filter, List.mem_dedup, decide_eq_true_iff, ← hmem listener, List.mem_map]
  refine ⟨fun hin => ⟨⟨.register listener, ?_, rfl⟩, hin⟩, And.right⟩
  exact (List.mem_filter.mp (List.mem_of_getLast? ((hmem listener).mp hin))).1

/-- A listener that is taken off and registered again goes to the back. -/
example : (after [.register 1, .register 2, .register 1, .unregister 1, .register 1]).listeners =
    [2, 1] := by decide

end ServerSocket
end SocketCPlusPlus.Socket
