import Mathlib.Data.List.Induction
import Mathlib.Data.List.Nodup
import Mathlib.Logic.Function.Basic

/-! Tables in which the first entry under a key stays. Values offered one after another to two
tables under two keys end up in both or in neither if the keys come again together. -/
namespace SocketCPlusPlus.Foundation

section Table
variable {K V : Type} {key : V → K} {table : K → Option V} {offered : List V}

/-- Every entry was offered under its own key, and no key offered is free. -/
structure Indexes (key : V → K) (offered : List V) (table : K → Option V) : Prop where
  entry : ∀ k v, table k = some v → v ∈ offered ∧ key v = k
  taken : ∀ v ∈ offered, (table (key v)).isSome

theorem Indexes.empty (h : ∀ k, table k = none) : Indexes key [] table :=
  ⟨fun k v hv => (Option.some_ne_none v (hv.symm.trans (h k))).elim,
    fun _ hv => absurd hv List.not_mem_nil⟩

theorem Indexes.isSome_iff (h : Indexes key offered table) (k : K) :
    (table k).isSome ↔ k ∈ offered.map key := by
  constructor
  · intro hsome
    obtain ⟨v, hv⟩ := Option.isSome_iff_exists.mp hsome
    obtain ⟨hmem, hkey⟩ := h.entry k v hv
    exact hkey ▸ List.mem_map_of_mem hmem
  · intro hmem
    obtain ⟨v, hv, hkey⟩ := List.mem_map.mp hmem
    exact hkey ▸ h.taken v hv

variable [DecidableEq K]

/-- File a value unless its key is taken. -/
def offer (key : V → K) (table : K → Option V) (v : V) : K → Option V :=
  if (table (key v)).isSome then table else Function.update table (key v) (some v)

theorem offer_taken {v : V} (h : (table (key v)).isSome) : offer key table v = table := if_pos h

theorem offer_free {v : V} (h : ¬ (table (key v)).isSome) : offer key table v (key v) = some v := by
  rw [offer, if_neg h, Function.update_self]

theorem offer_ne {v : V} {k : K} (h : k ≠ key v) : offer key table v k = table k := by
  unfold offer
  split
  · rfl
  · exact Function.update_of_ne h ..

theorem offer_entry {v w : V} {k : K} (h : offer key table v k = some w) :
    table k = some w ∨ k = key v ∧ w = v := by
  by_cases htaken : (table (key v)).isSome
  · rw [offer_taken htaken] at h
    exact Or.inl h
  · by_cases hk : k = key v
    · rw [hk, offer_free htaken] at h
      cases h
      exact Or.inr ⟨hk, rfl⟩
    · rw [offer_ne hk] at h
      exact Or.inl h

theorem offer_isSome {v : V} {k : K} (h : (table k).isSome ∨ k = key v) :
    (offer key table v k).isSome := by
  by_cases htaken : (table (key v)).isSome
  · rw [offer_taken htaken]
    exact h.elim id fun hk => hk ▸ htaken
  · by_cases hk : k = key v
    · rw [hk, offer_free htaken]
      rfl
    · rw [offer_ne hk]
      exact h.resolve_right hk

theorem Indexes.offer (h : Indexes key offered table) (v : V) :
    Indexes key (offered ++ [v]) (offer key table v) := by
  constructor
  · intro k w hw
    rw [List.mem_append, List.mem_singleton]
    rcases offer_entry hw with hold | ⟨rfl, rfl⟩
    · obtain ⟨hmem, hkey⟩ := h.entry k w hold
      exact ⟨Or.inl hmem, hkey⟩
    · exact ⟨Or.inr rfl, rfl⟩
  · intro w hw
    rw [List.mem_append, List.mem_singleton] at hw
    exact offer_isSome (hw.imp (h.taken w) (congrArg key))

end Table

section TwoTables
variable {J K V : Type} {name : V → J} {pair : V → K} {names : J → Option V}
  {pairs : K → Option V} {offered kept : List V} {v : V}

/-- The second key comes again exactly where the first does. -/
def KeysAgree (name : V → J) (pair : V → K) (offered : List V) : Prop :=
  ∀ before v after, offered = before ++ v :: after →
    (name v ∈ before.map name ↔ pair v ∈ before.map pair)

theorem KeysAgree.of_snoc (h : KeysAgree name pair (offered ++ [v])) :
    KeysAgree name pair offered ∧ (name v ∈ offered.map name ↔ pair v ∈ offered.map pair) := by
  refine ⟨fun before w after he => h before w (after ++ [v]) ?_, h offered v [] rfl⟩
  rw [he, List.append_assoc]
  rfl

/-- Each key of the values offered belongs to one of the values kept. -/
structure KeptOnce (key : V → K) (offered kept : List V) : Prop where
  nodup : (kept.map key).Nodup
  mem : ∀ k, k ∈ offered.map key ↔ k ∈ kept.map key

theorem KeptOnce.skip (h : KeptOnce pair offered kept) (hv : pair v ∈ offered.map pair) :
    KeptOnce pair (offered ++ [v]) kept := by
  refine ⟨h.nodup, fun k => ?_⟩
  rw [List.map_append, List.mem_append, h.mem]
  refine or_iff_left_of_imp fun hk => ?_
  rw [List.map_singleton, List.mem_singleton] at hk
  exact hk ▸ (h.mem _).mp hv

theorem KeptOnce.snoc (h : KeptOnce pair offered kept) (hv : pair v ∉ offered.map pair) :
    KeptOnce pair (offered ++ [v]) (kept ++ [v]) := by
  constructor
  · rw [List.map_append, List.map_singleton]
    exact h.nodup.append (List.nodup_singleton _)
      (List.disjoint_singleton.mpr fun hm => hv ((h.mem _).mpr hm))
  · intro k
    rw [List.map_append, List.map_append, List.mem_append, List.mem_append, h.mem]

variable [DecidableEq J]

private theorem offer_taken_free (hn : Indexes name offered names) (hp : Indexes pair offered pairs)
    (htaken : (names (name v)).isSome) (hfree : ¬ (pairs (pair v)).isSome) :
    offer name names v (name v) ≠ some v := by
  rw [offer_taken htaken]
  intro hv
  exact hfree (hp.taken v (hn.entry _ v hv).1)

/-- A value that enters one table enters both exactly if its keys are taken together. -/
theorem offer_both_iff [DecidableEq K] (hn : Indexes name offered names)
    (hp : Indexes pair offered pairs) (v : V) :
    (¬ (names (name v)).isSome ∨ ¬ (pairs (pair v)).isSome →
      offer name names v (name v) = some v ∧ offer pair pairs v (pair v) = some v) ↔
    (name v ∈ offered.map name ↔ pair v ∈ offered.map pair) := by
  rw [← hn.isSome_iff, ← hp.isSome_iff]
  by_cases hname : (names (name v)).isSome <;> by_cases hpair : (pairs (pair v)).isSome
  · exact iff_of_true (fun h => (h.elim (· hname) (· hpair)).elim) (iff_of_true hname hpair)
  · exact iff_of_false (fun h => offer_taken_free hn hp hname hpair (h (Or.inr hpair)).1)
      (fun h => hpair (h.mp hname))
  · exact iff_of_false (fun h => offer_taken_free hp hn hpair hname (h (Or.inl hname)).2)
      (fun h => hname (h.mpr hpair))
  · exact iff_of_true (fun _ => ⟨offer_free hname, offer_free hpair⟩) (iff_of_false hname hpair)

/-- The values offered whose key was new. -/
def firsts (key : V → J) (offered : List V) : List V :=
  offered.foldl (fun kept v => if key v ∈ kept.map key then kept else kept ++ [v]) []

theorem firsts_snoc (offered : List V) (v : V) : firsts name (offered ++ [v]) =
    if name v ∈ (firsts name offered).map name then firsts name offered
    else firsts name offered ++ [v] := by
  rw [firsts, List.foldl_append]
  rfl

/-- Where the keys agree, the values kept have each key of both kinds once. -/
theorem keptOnce_firsts (h : KeysAgree name pair offered) :
    KeptOnce name offered (firsts name offered) ∧ KeptOnce pair offered (firsts name offered) := by
  induction offered using List.reverseRecOn with
  | nil => exact ⟨⟨List.nodup_nil, fun _ => Iff.rfl⟩, ⟨List.nodup_nil, fun _ => Iff.rfl⟩⟩
  | append_singleton offered v ih =>
    obtain ⟨hbefore, hv⟩ := h.of_snoc
    obtain ⟨hname, hpair⟩ := ih hbefore
    rw [firsts_snoc]
    by_cases hmem : name v ∈ (firsts name offered).map name
    · have hoffered := (hname.mem _).mpr hmem
      rw [if_pos hmem]
      exact ⟨hname.skip hoffered, hpair.skip (hv.mp hoffered)⟩
    · have hoffered := fun hm => hmem ((hname.mem _).mp hm)
      rw [if_neg hmem]
      exact ⟨hname.snoc hoffered, hpair.snoc fun hm => hoffered (hv.mpr hm)⟩

end TwoTables
end SocketCPlusPlus.Foundation
