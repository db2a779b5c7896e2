import Mathlib.Data.List.Basic
import ScriptHost.Machine.Heap

/-! What the history of an interpreter says of its boxes. They stand on a shelf, one after the
other as they are made, and each is emptied at most once, after its end has been decided on. -/

namespace ScriptHost

namespace BoxEvent

/-- Whether the box `id` is finalized. -/
def finalizes (id : Nat) : BoxEvent → Bool
  | finalized i _ => i == id
  | _ => false

/-- Whether a box of the object is finalized. -/
def ends (o : ObjectId) : BoxEvent → Bool
  | finalized _ o? => o? == some o
  | _ => false

/-- Whether it is decided that boxes are to be finalized. -/
def decides : BoxEvent → Bool
  | condemned _ | closing => true
  | _ => false

@[simp] theorem finalizes_made (id : Nat) (o? : Option ObjectId) :
    (made o?).finalizes id = false := rfl

@[simp] theorem finalizes_condemned (id i : Nat) : (condemned i).finalizes id = false := rfl

@[simp] theorem finalizes_finalized (id i : Nat) (o? : Option ObjectId) :
    (finalized i o?).finalizes id = (i == id) := rfl

@[simp] theorem finalizes_closing (id : Nat) : closing.finalizes id = false := rfl

@[simp] theorem ends_made (o : ObjectId) (o? : Option ObjectId) : (made o?).ends o = false := rfl

@[simp] theorem ends_condemned (o : ObjectId) (i : Nat) : (condemned i).ends o = false := rfl

@[simp] theorem ends_finalized (o : ObjectId) (id : Nat) (o? : Option ObjectId) :
    (finalized id o?).ends o = (o? == some o) := rfl

@[simp] theorem ends_closing (o : ObjectId) : closing.ends o = false := rfl

end BoxEvent

/-- The boxes of an interpreter as events tell of them. -/
structure Shelf where
  /-- What each box was made for, in the order in which they were made. Those that are finalized
  are empty. -/
  boxes : List (Option (Option ObjectId))
  /-- The boxes whose end has been decided on. -/
  condemned : List Nat

namespace Shelf

def empty : Shelf := ⟨[], []⟩

/-- The shelf after an event, if it can happen. A box can be finalized as long as it is full, once
its end has been decided on. -/
def next? (s : Shelf) : BoxEvent → Option Shelf
  | .made o? => some { s with boxes := s.boxes ++ [some o?] }
  | .condemned id => some { s with condemned := id :: s.condemned }
  | .finalized id o? =>
    if s.boxes[id]? = some (some o?) ∧ id ∈ s.condemned then
      some { s with boxes := s.boxes.set id none }
    else none
  | .closing => some { s with condemned := List.range s.boxes.length }

def replay (s : Shelf) (events : List BoxEvent) : Option Shelf := events.foldlM next? s

variable {s t : Shelf} {events : List BoxEvent}

theorem next?_finalized {id : Nat} {o? : Option ObjectId}
    (h : s.next? (.finalized id o?) = some t) :
    s.boxes[id]? = some (some o?) ∧ id ∈ s.condemned ∧
      t = { s with boxes := s.boxes.set id none } := by
  by_cases hb : s.boxes[id]? = some (some o?) ∧ id ∈ s.condemned
  · rw [next?, if_pos hb] at h
    exact ⟨hb.1, hb.2, (Option.some.inj h).symm⟩
  · rw [next?, if_neg hb] at h
    cases h

theorem replay_cons (s : Shelf) (e : BoxEvent) (events : List BoxEvent) :
    s.replay (e :: events) = (s.next? e).bind fun t => replay t events := rfl

theorem replay_append (s : Shelf) (es fs : List BoxEvent) :
    s.replay (es ++ fs) = (s.replay es).bind fun t => replay t fs := List.foldlM_append

theorem replay_singleton (s : Shelf) (e : BoxEvent) : s.replay [e] = s.next? e := by
  rw [replay_cons]
  cases s.next? e <;> rfl

theorem replay_made (s : Shelf) (os : List (Option ObjectId)) :
    s.replay (os.map .made) = some { s with boxes := s.boxes ++ os.map some } := by
  induction os generalizing s with
  | nil => simp [replay]
  | cons o rest ih =>
    rw [List.map_cons, replay_cons, next?, Option.bind_some, ih]
    simp

theorem replay_condemned (s : Shelf) (ids : List Nat) :
    s.replay (ids.map .condemned) = some { s with condemned := ids.reverse ++ s.condemned } := by
  induction ids generalizing s with
  | nil => rfl
  | cons id rest ih =>
    rw [List.map_cons, replay_cons, next?, Option.bind_some, ih]
    simp

/-- The full boxes of an object are those that were made and not finalized. -/
theorem count_replay (o : ObjectId) (h : s.replay events = some t) :
    t.boxes.count (some (some o)) + events.countP (·.ends o) =
      s.boxes.count (some (some o)) + events.count (.made (some o)) := by
  induction events generalizing s with
  | nil =>
    cases h
    rfl
  | cons e rest ih =>
    obtain ⟨u, hu, hr⟩ := Option.bind_eq_some_iff.mp h
    have later := ih hr
    cases e with
    | made o? =>
      cases hu
      rw [List.count_append, List.count_singleton] at later
      simp only [List.countP_cons, List.count_cons] at *
      by_cases ho : o? = some o
      · subst ho
        simp at later ⊢
        omega
      · simp [ho] at later ⊢
        omega
    | condemned | closing =>
      cases hu
      simpa [List.count_cons] using later
    | finalized id o? =>
      obtain ⟨hb, -, rfl⟩ := next?_finalized hu
      obtain ⟨hi, hv⟩ := List.getElem?_eq_some_iff.mp hb
      rw [List.count_set hi, hv] at later
      simp only [List.countP_cons, List.count_cons]
      by_cases ho : o? = some o
      · subst ho
        have positive : 0 < s.boxes.count (some (some o)) :=
          List.count_pos_iff.mpr (hv ▸ List.getElem_mem hi)
        simp at later ⊢
        omega
      · simp [ho] at later ⊢
        omega

/-- A box is finalized once, and never again after it is empty. -/
theorem countP_finalizes_le (id : Nat) (h : s.replay events = some t) :
    events.countP (·.finalizes id) ≤ if s.boxes[id]? = some none then 0 else 1 := by
  induction events generalizing s with
  | nil => exact Nat.zero_le _
  | cons e rest ih =>
    obtain ⟨u, hu, hr⟩ := Option.bind_eq_some_iff.mp h
    have later := ih hr
    rw [List.countP_cons]
    cases e with
    | made o? =>
      cases hu
      have same : (s.boxes ++ [some o?])[id]? = some none ↔ s.boxes[id]? = some none := by
        rw [List.getElem?_append]
        split
        · rfl
        next hi =>
          rw [List.getElem?_eq_none (Nat.le_of_not_lt hi)]
          cases id - s.boxes.length <;> simp
      simpa [same] using later
    | condemned | closing =>
      cases hu
      simpa using later
    | finalized i o? =>
      obtain ⟨hb, -, rfl⟩ := next?_finalized hu
      have inside := (List.getElem?_eq_some_iff.mp hb).1
      by_cases hi : i = id
      · subst hi
        rw [List.getElem?_set_self inside, if_pos rfl] at later
        rw [hb]
        simpa using later
      · rw [List.getElem?_set_ne hi] at later
        simpa [hi] using later

/-- Only events decide on the end of a box. -/
theorem mem_condemned_replay {id : Nat} (h : s.replay events = some t) (hc : id ∈ t.condemned) :
    id ∈ s.condemned ∨ .condemned id ∈ events ∨ .closing ∈ events := by
  induction events generalizing s with
  | nil =>
    cases h
    exact .inl hc
  | cons e rest ih =>
    obtain ⟨u, hu, hr⟩ := Option.bind_eq_some_iff.mp h
    rcases ih hr with before | told | closed
    · cases e with
      | made =>
        cases hu
        exact .inl before
      | finalized =>
        obtain ⟨-, -, rfl⟩ := next?_finalized hu
        exact .inl before
      | condemned i =>
        cases hu
        rcases List.mem_cons.mp before with rfl | before
        · exact .inr (.inl List.mem_cons_self)
        · exact .inl before
      | closing => exact .inr (.inr List.mem_cons_self)
    · exact .inr (.inl (List.mem_cons_of_mem _ told))
    · exact .inr (.inr (List.mem_cons_of_mem _ closed))

/-- As long as no end is decided on, only boxes that had been condemned are finalized. -/
theorem count_drop_replay {n : Nat} (o : ObjectId) (h : s.replay events = some t)
    (hn : n ≤ s.boxes.length) (hc : ∀ id ∈ s.condemned, id < n)
    (he : ∀ e ∈ events, e.decides = false) :
    (t.boxes.drop n).count (some (some o)) =
      (s.boxes.drop n).count (some (some o)) + events.count (.made (some o)) := by
  induction events generalizing s with
  | nil =>
    cases h
    rfl
  | cons e rest ih =>
    rw [List.forall_mem_cons] at he
    obtain ⟨u, hu, hr⟩ := Option.bind_eq_some_iff.mp h
    cases e with
    | made o? =>
      cases hu
      have later := ih hr (by simp; omega) hc he.2
      rw [List.drop_append_of_le_length hn, List.count_append, List.count_singleton] at later
      rw [later, List.count_cons]
      by_cases ho : o? = some o <;> simp [ho]
      omega
    | condemned | closing => cases he.1
    | finalized id o? =>
      obtain ⟨-, inside, rfl⟩ := next?_finalized hu
      have later := ih hr (by simpa using hn) hc he.2
      rw [List.drop_set_of_lt (hc id inside)] at later
      have other : BoxEvent.finalized id o? ≠ .made (some o) := nofun
      rw [later, List.count_cons_of_ne other]

/-- Once all boxes that there were at the closing are empty, as many of an object have been
finalized as had been made for it by then. -/
theorem countP_ends_of_closing {before after : List BoxEvent} (o : ObjectId)
    (he : ∀ e ∈ after, e.decides = false)
    (h : empty.replay (before ++ .closing :: after) = some t) (hs : empty.replay before = some s)
    (hd : ∀ id < s.boxes.length, t.boxes[id]? = some none) :
    (before ++ .closing :: after).countP (·.ends o) = before.count (.made (some o)) := by
  have whole := count_replay o h
  rw [replay_append, hs, Option.bind_some, replay_cons, next?, Option.bind_some] at h
  have later := count_drop_replay o h (Nat.le_refl _) (fun _ => List.mem_range.mp) he
  have first : (t.boxes.take s.boxes.length).count (some (some o)) = 0 := by
    refine List.count_eq_zero.mpr fun hm => ?_
    obtain ⟨id, hi⟩ := List.mem_iff_getElem?.mp hm
    rw [List.getElem?_take] at hi
    split at hi
    next inside =>
      rw [hd id inside] at hi
      cases hi
    next => cases hi
  have split := congrArg (List.count (some (some o))) (List.take_append_drop s.boxes.length t.boxes)
  rw [List.count_append, first, later, List.drop_length] at split
  simp only [List.count_append, List.count_cons, List.count_nil, empty] at whole split ⊢
  simp at whole split ⊢
  omega

/-- What happened before the closing. -/
def beforeClosing (events : List BoxEvent) : List BoxEvent := events.takeWhile (· ≠ .closing)

theorem beforeClosing_append {before after : List BoxEvent} (hb : .closing ∉ before) :
    beforeClosing (before ++ .closing :: after) = before := by
  have opened : ∀ e ∈ before, decide (e ≠ BoxEvent.closing) = true := fun e he =>
    decide_eq_true fun h => hb (h ▸ he)
  rw [beforeClosing, List.takeWhile_append_of_pos opened, List.takeWhile_cons_of_neg (by simp),
    List.append_nil]

/-- No box is finalized before its end has been decided on. -/
theorem condemned_of_finalized {before after : List BoxEvent} {id : Nat} {o? : Option ObjectId}
    (h : empty.replay (before ++ .finalized id o? :: after) = some t) :
    .condemned id ∈ before ∨ .closing ∈ before := by
  rw [replay_append] at h
  obtain ⟨s, hs, hr⟩ := Option.bind_eq_some_iff.mp h
  obtain ⟨u, hu, -⟩ := Option.bind_eq_some_iff.mp hr
  exact (mem_condemned_replay hs (next?_finalized hu).2.1).resolve_left List.not_mem_nil

end Shelf

/-! ### The boxes of a heap -/

namespace Heap

/-- What has happened to boxes, in order. -/
def told (h : Heap) : List BoxEvent := h.upkeep.history.reverse

/-- What the boxes of the heap were made for. -/
def contents (h : Heap) : List (Option (Option ObjectId)) :=
  h.boxes.toList.map (Option.map fun b => b.value.object?)

/-- The object that a box was made for, if it was made for one; nothing if it is empty. -/
def content? (h : Heap) (id : Nat) : Option (Option ObjectId) :=
  (h.boxed? id).map Variant.object?

@[simp] theorem length_contents (h : Heap) : h.contents.length = h.boxes.size := by
  simp [contents]

theorem getElem?_contents (h : Heap) (id : Nat) :
    h.contents[id]? = if id < h.boxes.size then some (h.content? id) else none := by
  simp only [contents, content?, boxed?, box?, List.getElem?_map, Array.getElem?_toList]
  split
  next hi => simp [hi, Option.map_map, Function.comp_def]
  next hi => simp [Array.getElem?_eq_none (Nat.le_of_not_lt hi)]

theorem content?_of_le {h : Heap} {id : Nat} (hi : h.boxes.size ≤ id) : h.content? id = none := by
  simp [content?, boxed?, box?, Array.getElem?_eq_none hi]

theorem content?_eq_join (h : Heap) (id : Nat) : h.content? id = h.contents[id]?.join := by
  rw [getElem?_contents]
  split
  · rfl
  next hi => exact content?_of_le (Nat.le_of_not_lt hi)

theorem content?_congr {h g : Heap} (hc : g.contents = h.contents) (id : Nat) :
    g.content? id = h.content? id := by
  rw [content?_eq_join, content?_eq_join, hc]

theorem content?_eq_some_iff {h : Heap} {id : Nat} {o? : Option ObjectId} :
    h.content? id = some o? ↔ h.contents[id]? = some (some o?) := by
  rw [content?_eq_join, Option.join_eq_some_iff]

end Heap

end ScriptHost
