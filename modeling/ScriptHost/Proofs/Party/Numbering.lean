import Mathlib.Logic.Equiv.Basic
import ScriptHost.Proofs.Party.Sessions

/-! A party under other numbers for its interpreters. What belongs to it does not depend on them. -/

namespace ScriptHost

variable {p : Party} {g : Equiv.Perm Nat}

/-- Numbers that rise become consecutive by a permutation that leaves all smaller ones alone. -/
theorem exists_consecutive {numbers : List Nat} (rising : numbers.Pairwise (· < ·)) {m : Nat}
    (hm : ∀ x ∈ numbers, m ≤ x) :
    ∃ g : Equiv.Perm Nat, (∀ x < m, g x = x) ∧ numbers.map g = List.range' m numbers.length := by
  induction numbers generalizing m with
  | nil => exact ⟨Equiv.refl Nat, fun _ _ => rfl, rfl⟩
  | cons a rest ih =>
    obtain ⟨above, rising⟩ := List.pairwise_cons.mp rising
    have low : m ≤ a := hm a List.mem_cons_self
    obtain ⟨g, fixed, next⟩ := ih rising fun x hx => Nat.succ_le_of_lt (low.trans_lt (above x hx))
    -- the first number changes places with the smallest one
    refine ⟨(Equiv.swap a m).trans g, fun x hx => ?_, ?_⟩
    · rw [Equiv.trans_apply, Equiv.swap_apply_of_ne_of_ne (by omega) (by omega)]
      exact fixed x (Nat.lt_succ_of_lt hx)
    · have first : (Equiv.swap a m).trans g a = m := by
        rw [Equiv.trans_apply, Equiv.swap_apply_left]
        exact fixed m (Nat.lt_succ_self m)
      have others : rest.map ((Equiv.swap a m).trans g) = rest.map g := by
        refine List.map_congr_left fun x hx => ?_
        have larger := above x hx
        rw [Equiv.trans_apply, Equiv.swap_apply_of_ne_of_ne (by omega) (by omega)]
      rw [List.map_cons, first, others, next, List.length_cons, List.range'_succ]

/-- The party with other numbers for its interpreters. -/
def Party.renumbered (p : Party) (g : Equiv.Perm Nat) : Party :=
  { p with number := g, injective := g.injective }

/-! ### What belongs to the party -/

mutual

theorem Variant.owned_renumbered (v : Variant) : v.Owned (p.renumbered g) ↔ v.Owned p := by
  cases v with
  | array items => exact Variant.listOwned_renumbered items
  | dictionary entries => exact Variant.entriesOwned_renumbered entries
  | callable c => exact Callable.owned_renumbered c
  | _ => exact Iff.rfl
termination_by structural v

theorem Variant.listOwned_renumbered (vs : List Variant) :
    Variant.ListOwned (p.renumbered g) vs ↔ Variant.ListOwned p vs := by
  cases vs with
  | nil => exact Iff.rfl
  | cons v rest =>
    exact and_congr (Variant.owned_renumbered v) (Variant.listOwned_renumbered rest)
termination_by structural vs

theorem Variant.entriesOwned_renumbered (es : List (Variant × Variant)) :
    Variant.EntriesOwned (p.renumbered g) es ↔ Variant.EntriesOwned p es := by
  cases es with
  | nil => exact Iff.rfl
  | cons e rest =>
    exact and_congr (Variant.entryOwned_renumbered e) (Variant.entriesOwned_renumbered rest)
termination_by structural es

theorem Variant.entryOwned_renumbered (e : Variant × Variant) :
    Variant.EntryOwned (p.renumbered g) e ↔ Variant.EntryOwned p e := by
  cases e with
  | mk k v => exact and_congr (Variant.owned_renumbered k) (Variant.owned_renumbered v)
termination_by structural e

theorem Callable.owned_renumbered (c : Callable) : c.Owned (p.renumbered g) ↔ c.Owned p := by
  cases c with
  | bound target extra =>
    exact and_congr (Callable.owned_renumbered target) (Variant.listOwned_renumbered extra)
  | _ => exact Iff.rfl
termination_by structural c

end

mutual

theorem Behaviour.owned_renumbered (b : Behaviour) : b.Owned (p.renumbered g) ↔ b.Owned p := by
  cases b with
  | give v => exact v.owned_renumbered
  | create definition => exact Definition.owned_renumbered definition
  | _ => exact Iff.rfl
termination_by structural b

theorem Definition.owned_renumbered (d : Definition) : d.Owned (p.renumbered g) ↔ d.Owned p := by
  cases d with
  | full =>
    exact and_congr (forall₂_congr fun e _ => e.2.owned_renumbered)
      (and_congr (Definition.methodsOwned_renumbered _) (Definition.overridesOwned_renumbered _))
  | _ => exact Iff.rfl
termination_by structural d

theorem Definition.methodsOwned_renumbered (es : List (String × Behaviour)) :
    Definition.MethodsOwned (p.renumbered g) es ↔ Definition.MethodsOwned p es := by
  cases es with
  | nil => exact Iff.rfl
  | cons e rest =>
    exact and_congr (Definition.methodOwned_renumbered e)
      (Definition.methodsOwned_renumbered rest)
termination_by structural es

theorem Definition.methodOwned_renumbered (e : String × Behaviour) :
    Definition.MethodOwned (p.renumbered g) e ↔ Definition.MethodOwned p e := by
  cases e with
  | mk _ b => exact Behaviour.owned_renumbered b
termination_by structural e

theorem Definition.overridesOwned_renumbered (es : List (Metamethod × Behaviour)) :
    Definition.OverridesOwned (p.renumbered g) es ↔ Definition.OverridesOwned p es := by
  cases es with
  | nil => exact Iff.rfl
  | cons e rest =>
    exact and_congr (Definition.overrideOwned_renumbered e)
      (Definition.overridesOwned_renumbered rest)
termination_by structural es

theorem Definition.overrideOwned_renumbered (e : Metamethod × Behaviour) :
    Definition.OverrideOwned (p.renumbered g) e ↔ Definition.OverrideOwned p e := by
  cases e with
  | mk _ b => exact Behaviour.owned_renumbered b
termination_by structural e

end

theorem Function.owned_renumbered (f : Function) : f.Owned (p.renumbered g) ↔ f.Owned p := by
  cases f <;> exact Iff.rfl

theorem Instance.Owned.renumbered {x : Instance} (hx : x.Owned p) : x.Owned (p.renumbered g) where
  definition := x.definition.owned_renumbered.mpr hx.definition
  properties e he := e.2.owned_renumbered.mpr (hx.properties e he)
  connections e he := e.2.owned_renumbered.mpr (hx.connections e he)
  lastWill v hv := v.owned_renumbered.mpr (hx.lastWill v hv)

theorem Host.Owned.renumbered {h : Host} (hh : h.Owned p) : h.Owned (p.renumbered g) where
  object x hx own := (hh.object x hx own).renumbered
  native f hf own := f.behaviour.owned_renumbered.mpr (hh.native f hf own)

theorem Heap.Owned.renumbered {h : Heap} (hh : h.Owned p) : h.Owned (p.renumbered g) where
  box b hb := b.value.owned_renumbered.mpr (hh.box b hb)
  function f hf := f.owned_renumbered.mpr (hh.function f hf)

theorem Bridge.Owned.renumbered {b : Bridge} (hb : b.Owned p) : b.Owned (p.renumbered g) :=
  ⟨hb.interpreter, hb.heap.renumbered⟩

theorem Session.Owned.renumbered {s : Session} (hs : s.Owned p) : s.Owned (p.renumbered g) where
  host := hs.host.renumbered
  bridge e he own := (hs.bridge e he own).renumbered
  saved e he own := e.2.owned_renumbered.mpr (hs.saved e he own)

theorem Step.Owned.renumbered {request : Step} (hr : request.Owned p) :
    request.Owned (p.renumbered g) := by
  have all {vs : List Variant} (hv : ∀ v ∈ vs, v.Owned p) : ∀ v ∈ vs, v.Owned (p.renumbered g) :=
    fun v hm => v.owned_renumbered.mpr (hv v hm)
  cases request with
  | push name v => exact v.owned_renumbered.mpr hr
  | call name args save => exact ⟨all hr.1, hr.2⟩
  | method v name args => exact ⟨v.owned_renumbered.mpr hr.1, all hr.2⟩
  | callable c args => exact ⟨c.owned_renumbered.mpr hr.1, all hr.2⟩
  | equal a b => exact ⟨a.owned_renumbered.mpr hr.1, b.owned_renumbered.mpr hr.2⟩
  | _ => exact hr

end ScriptHost
