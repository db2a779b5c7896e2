import Mathlib.Data.List.TakeWhile
import ScriptHost.Proofs.Machine.InUse
import ScriptHost.Proofs.Session.Finalizing

/-! Which boxes the collector leaves alone, whenever it acts: those that can be had when it decides
on what is to be finalized, and those that a function holds which is at work. -/

namespace ScriptHost

/-! ### Roots -/

namespace Bridge

theorem globals_mem_roots (b : Bridge) (held : List Reference) :
    .table Heap.globals ∈ b.roots held := by simp [roots]

theorem mem_roots_of_frame {b : Bridge} {F : Frame} {v : Value}
    (hF : F ∈ b.heap.upkeep.frames) (hv : v ∈ F.values) (held : List Reference) :
    v ∈ b.roots held := by
  refine List.mem_append_left _ (List.mem_append_left _ (List.mem_append_right _ ?_))
  exact List.mem_flatMap.mpr ⟨F, hF, hv⟩

end Bridge

/-! ### Heaps -/

namespace Heap

variable {h : Heap} {id : Nat} {o? : Option ObjectId}

/-- The box is full, and its end has not been decided on. -/
structure Lives (h : Heap) (id : Nat) (o? : Option ObjectId) : Prop where
  full : h.content? id = some o?
  spared : .box id ∉ h.upkeep.doomed

/-- Only what is next to be finalized is emptied. -/
theorem Lives.takeDoomed (hl : h.Lives id o?) : h.takeDoomed.Lives id o? := by
  refine ⟨?_, fun hm => hl.spared ?_⟩
  · rcases h.takeDoomed_cases with ⟨ht, -⟩ | ⟨id', o?', rest, hd, -, ht⟩
    · rw [ht]
      exact hl.full
    · have other : id ≠ id' := by
        rintro rfl
        exact hl.spared (hd ▸ List.mem_cons_self)
      rw [ht, content?_withoutBox, if_neg other, hl.full]
  · rw [doomed_takeDoomed] at hm
    exact List.mem_of_mem_tail hm

theorem Lives.condemn (hl : h.Lives id o?) {inUse : List Value} (hu : .box id ∈ inUse)
    (all : List Value) : (h.condemn inUse all).Lives id o? := by
  have condemns := h.condemns_condemn inUse all
  refine ⟨(content?_congr condemns.contents id).trans hl.full, fun hm => ?_⟩
  rw [condemns.doomed, List.mem_append] at hm
  refine hm.elim hl.spared fun hm => ?_
  have gone := (List.mem_filter.mp hm).2
  rw [List.contains_iff_mem.mpr hu] at gone
  cases gone

theorem Works.lives {g : Heap} (hw : h.Works g) (hl : h.Lives id o?) : g.Lives id o? :=
  ⟨hw.content? hl.full, hw.doomed ▸ hl.spared⟩

theorem frames_takeDoomed (h : Heap) : h.takeDoomed.upkeep.frames = h.upkeep.frames := by
  rcases h.takeDoomed_cases with ⟨ht, -⟩ | ⟨id, o?, rest, -, -, ht⟩ <;> rw [ht] <;> rfl

theorem frames_condemn (h : Heap) (inUse all : List Value) :
    (h.condemn inUse all).upkeep.frames = h.upkeep.frames := by
  have sifts := Sifts.lose h inUse (all.filter (!inUse.contains ·)) all
  have frames := congrArg Upkeep.frames sifts.upkeep
  exact frames

/-- What has more room still runs. -/
theorem mem_frames_leave {F : Frame} {room : Nat} (hF : F ∈ h.upkeep.frames) (hr : room < F.room) :
    F ∈ (h.leave room).upkeep.frames := by
  have split := List.takeWhile_append_dropWhile (p := fun f : Frame => decide (f.room ≤ room))
    (l := h.upkeep.frames)
  rw [← split, List.mem_append] at hF
  refine hF.resolve_left fun hm => ?_
  have less := List.mem_takeWhile_imp hm
  simp only [decide_eq_true_eq] at less
  omega

theorem mem_frames_enter {F : Frame} {frame : Frame} (hF : F ∈ h.upkeep.frames)
    (hr : frame.room < F.room) : F ∈ (h.enter frame).upkeep.frames :=
  List.mem_cons_of_mem _ (mem_frames_leave hF hr)

end Heap

/-! ### Decisions -/

namespace World

variable {w : World} {id : Nat} {o? : Option ObjectId}

/-- The values from which a collection starts to look for what is in use. -/
def roots (w : World) (held : List Reference) : List Value :=
  w.bridge.roots (held ++ w.host.references ++ w.bridge.boxReferences)

/-- What is in use when a collection decides is not condemned by it. -/
theorem lives_condemned (held : List Reference) (spared : List Value)
    (hl : w.bridge.heap.Lives id o?) (hu : w.bridge.heap.InUse (w.roots held) (.box id)) :
    (w.condemned held spared).bridge.heap.Lives id o? :=
  hl.condemn ((hu.mono (List.subset_append_left _ spared)).mem_reached rfl) _

end World

namespace Collector

variable {w : World} {id : Nat} {o? : Option ObjectId}

/-- A finalization empties no other box. -/
theorem ends_finalizeNext (hl : w.bridge.heap.Lives id o?) :
    (finalizeNext w).Ends (·.bridge.heap.Lives id o?) := by
  rcases finalizeNext_cases w with ends | ⟨w', ends, left, kept⟩
  · rw [ends]
    trivial
  · have taken : w.taken.bridge.heap.Lives id o? := hl.takeDoomed
    rw [ends]
    refine ⟨kept id o? taken.full, fun hm => hl.spared ?_⟩
    rw [left] at hm
    exact List.mem_of_mem_tail hm

theorem ends_finalizeMany (n : Nat) (hl : w.bridge.heap.Lives id o?) :
    (finalizeMany n w).Ends (·.bridge.heap.Lives id o?) := by
  induction n generalizing w with
  | zero => exact hl
  | succ n ih => exact Act.ends_bind (ends_finalizeNext hl) fun _ _ _ => ih

/-- No box that is in use when a collection decides is finalized by it. -/
theorem ends_condemn (held : List Reference) (spared : List Value)
    (hl : w.bridge.heap.Lives id o?) (hu : w.bridge.heap.InUse (w.roots held) (.box id)) :
    ((do condemn held spared; finalizeDoomed : Act Unit) w).Ends (·.bridge.heap.Lives id o?) :=
  ends_finalizeMany _ (World.lives_condemned held spared hl hu)

/-- Wherever the collector may act, a box that can be had from the globals, from what runs or from
what is held elsewhere is left alone. -/
theorem ends_pause (held : List Reference) (plan : Plan) (frame : Unit → Frame)
    (hl : w.bridge.heap.Lives id o?)
    (hu : w.bridge.heap.InUse ((w.withHeap (w.bridge.heap.enter (frame ()))).roots held) (.box id)) :
    ((attending held plan).pause frame w).Ends (·.bridge.heap.Lives id o?) := by
  let entered := w.withHeap (w.bridge.heap.enter (frame ()))
  let upkeep : Upkeep := { entered.bridge.heap.upkeep with
    occasions := entered.bridge.heap.upkeep.occasions + 1 }
  let w₁ := entered.withHeap { entered.bridge.heap with upkeep := upkeep }
  have first : entered.bridge.heap.Lives id o? := ⟨hl.full, hl.spared⟩
  have lives : w₁.bridge.heap.Lives id o? := ⟨hl.full, hl.spared⟩
  have inUse : w₁.bridge.heap.InUse (w₁.roots held) (.box id) := hu.upkeep upkeep
  show (attend held plan entered).Ends _
  refine Act.ends_bind (show (Act.heap entered).Ends _ from first) fun h w' hw _ => ?_
  cases hw
  refine Act.ends_bind (show (Act.modifyHeap _ entered).Ends _ from lives) fun _ w' hw _ => ?_
  cases hw
  rcases plan entered.bridge.heap.upkeep.occasions with _ | spared | _
  · exact lives
  · exact World.lives_condemned held spared lives inUse
  · exact ends_finalizeNext lives

end Collector

/-! ### What runs -/

/-- What runs goes on, and the boxes that it holds are left alone. -/
def World.Shelters (F : Frame) (w w' : World) : Prop :=
  F ∈ w.bridge.heap.upkeep.frames → F ∈ w'.bridge.heap.upkeep.frames ∧
    ∀ id o?, .box id ∈ F.values → w.bridge.heap.Lives id o? → w'.bridge.heap.Lives id o?

namespace World.Shelters

variable {F : Frame}

theorem trans {w w' w'' : World} (h : w.Shelters F w') (h' : w'.Shelters F w'') :
    w.Shelters F w'' := by
  intro hF
  obtain ⟨runs, lives⟩ := h hF
  obtain ⟨later, alive⟩ := h' runs
  exact ⟨later, fun id o? hb hl => alive id o? hb (lives id o? hb hl)⟩

theorem of_works {w w' : World} (hw : w.Works w') : w.Shelters F w' :=
  fun hF => ⟨hw.heap.frames ▸ hF, fun _ _ _ hl => hw.heap.lives hl⟩

theorem discipline : Act.Discipline (Shelters F) where
  refl _ hF := ⟨hF, fun _ _ _ hl => hl⟩
  trans := trans
  hooked w h := of_works (Works.discipline.hooked w h)
  recorded w e := of_works (Works.discipline.recorded w e)
  faulted w e := of_works (Works.discipline.faulted w e)

instance collects : Collects (Shelters F) where
  of_works := of_works
  takes w hF := ⟨w.bridge.heap.frames_takeDoomed ▸ hF, fun _ _ _ hl => hl.takeDoomed⟩
  wills _ _ _ hF := ⟨hF, fun _ _ _ hl => hl⟩
  condemns w held spared hF := by
    have frames : (w.condemned held spared).bridge.heap.upkeep.frames = _ :=
      w.bridge.heap.frames_condemn _ _
    refine ⟨frames ▸ hF, fun id o? hb hl => lives_condemned held spared hl (.root ?_)⟩
    exact Bridge.mem_roots_of_frame hF hb _

/-- What runs inside has less room, so that it does not end what is around it. -/
theorem abides (held : List Reference) (plan : Collector.Plan) {most : Nat} (hm : most < F.room) :
    @Pausing.Abides (Collector.attending held plan) most (Shelters F) := by
  let := Collector.attending held plan
  have frames (f : Heap → List Frame) (hf : ∀ h : Heap, F ∈ h.upkeep.frames → F ∈ f h) :
      Act.Composed (Shelters F)
        (Act.modifyHeap fun h => { h with upkeep := { h.upkeep with frames := f h } }) :=
    .blind fun w => ⟨.ok (), w.withFrames (f w.bridge.heap), rfl, rfl, .silent rfl rfl,
      fun hF => ⟨hf _ hF, fun _ _ _ hl => ⟨hl.full, hl.spared⟩⟩⟩
  have enters (frame : Frame) (hr : frame.room ≤ most) :=
    frames (fun h => (h.enter frame).upkeep.frames) fun h hF => Heap.mem_frames_enter hF (by omega)
  refine ⟨fun frame hr => ?_, fun references _ hr hx => ?_⟩
  · exact .bind (enters _ hr) fun _ => Collector.composed_attend held plan
  · refine .bridge (fun b => .bind (enters _ hr) fun _ => ?_) fun _ => rfl
    refine .bind hx fun _ => .bind (frames _ fun h hF => ?_) fun _ => .pure _
    exact Heap.mem_frames_leave hF (by omega)

end World.Shelters

/-- While functions carry out an instruction, whatever that calls and whenever the collector acts,
they count as running, and no box that they hold is finalized, nor is its end decided on. -/
theorem Collector.ends_step (held : List Reference) (plan : Plan) (n : Nat) (a : Activation)
    (callers : List Activation) (w : World) :
    letI := attending held plan
    (step (Reentry.upTo n) a callers w).Ends fun w' =>
      a.frame (Reentry.upTo n) callers ∈ w'.bridge.heap.upkeep.frames ∧
        ∀ id o?, .box id ∈ (a :: callers).flatMap Activation.holds →
          w.bridge.heap.Lives id o? → w'.bridge.heap.Lives id o? := by
  let := attending held plan
  let F := a.frame (Reentry.upTo n) callers
  let most := Reentry.hostRoom (Reentry.roomUnder n) Reentry.hostLimit
  have rooms (site : Site) : (Reentry.upTo n site).room = most := Reentry.room_upTo n site
  have inside : most < F.room := Nat.lt_succ_of_le (rooms _).ge
  have := World.Shelters.abides held plan inside
  -- First the collector may act, and then the instruction is carried out.
  let entered := w.withHeap (w.bridge.heap.enter F)
  have runs : F ∈ entered.bridge.heap.upkeep.frames := List.mem_cons_self
  have attended : Act.Composed (World.Shelters F) (attend held plan) := composed_attend held plan
  have enough : Reentry.roomUnder n + 2 * Reentry.hostLimit ≤ most := Nat.le_succ _
  have advanced : Act.Composed (World.Shelters F) (a.advance (Reentry.upTo n) callers) :=
    a.composed_advance (Reentry.Composed.upTo enough) (fun site => (rooms site).le) callers
  have first := attended.ends World.Shelters.discipline entered
  have rest : (step (Reentry.upTo n) a callers w).Ends (entered.Shelters F) :=
    Act.ends_bind first fun _ w' _ kept =>
      (advanced.ends World.Shelters.discipline w').weaken fun _ => kept.trans
  refine rest.weaken fun _ shelters => ⟨(shelters runs).1, fun id o? hb hl => ?_⟩
  exact (shelters runs).2 id o? hb ⟨hl.full, hl.spared⟩

end ScriptHost
