import Mathlib.Data.List.Perm.Basic
import TreeFold.Proofs.FileSystem.Commute
import TreeFold.Proofs.Report

/-!
# Batches in another order

What an event adds to the report depends on the file system alone. So two events can change places
when neither of them matters to the other: the file system has the same entries, and the report
lists the same outputs and failures, in another order. Whole lists of events can change places when
each event of the one can with each event of the other.

The error of a failed write at a path that steps up is compared by its cause, since what it is
called depends on the directories that were made before.
-/

namespace TreeFold

open Component TreeFold.Path FileSystem Text

/-- The failure with the error of a write told by its cause. -/
def FileFailure.settled : FileFailure → FileFailure
  | write path e => write path (causeAt path e)
  | failure => failure

namespace Report

variable {first second third more others report : Report} {path : Path} {e : Error}

/-- The report of what happened before and of what happened next. -/
def append (first second : Report) : Report where
  processed := first.processed + second.processed
  written := first.written + second.written
  skipped := first.skipped + second.skipped
  outputs := first.outputs ++ second.outputs
  failures := first.failures ++ second.failures
  warnings := first.warnings ++ second.warnings

/-- The reports have the same counts. Their outputs are the same in some order, and so are their
failures, told by their causes. -/
structure Reorders (first second : Report) : Prop where
  processed : second.processed = first.processed
  written : second.written = first.written
  skipped : second.skipped = first.skipped
  outputs : first.outputs.Perm second.outputs
  failures : (first.failures.map (·.settled)).Perm (second.failures.map (·.settled))

namespace Reorders

theorem refl (report : Report) : report.Reorders report :=
  ⟨rfl, rfl, rfl, .refl _, .refl _⟩

theorem symm (h : first.Reorders second) : second.Reorders first :=
  ⟨h.processed.symm, h.written.symm, h.skipped.symm, h.outputs.symm, h.failures.symm⟩

theorem trans (h : first.Reorders second) (hnext : second.Reorders third) :
    first.Reorders third where
  processed := hnext.processed.trans h.processed
  written := hnext.written.trans h.written
  skipped := hnext.skipped.trans h.skipped
  outputs := h.outputs.trans hnext.outputs
  failures := h.failures.trans hnext.failures

theorem append (h : first.Reorders second) (hmore : more.Reorders others) :
    (first.append more).Reorders (second.append others) where
  processed := congrArg₂ (· + ·) h.processed hmore.processed
  written := congrArg₂ (· + ·) h.written hmore.written
  skipped := congrArg₂ (· + ·) h.skipped hmore.skipped
  outputs := h.outputs.append hmore.outputs
  failures := by
    simp only [Report.append, List.map_append]
    exact h.failures.append hmore.failures

/-- What happened after a report can be told in either order. -/
theorem append_comm (report more others : Report) :
    ((report.append more).append others).Reorders ((report.append others).append more) where
  processed := Nat.add_right_comm _ _ _
  written := Nat.add_right_comm _ _ _
  skipped := Nat.add_right_comm _ _ _
  outputs := by
    simp only [Report.append, List.append_assoc]
    exact List.perm_append_comm.append_left _
  failures := by
    simp only [Report.append, List.map_append, List.append_assoc]
    exact List.perm_append_comm.append_left _

/-- Where the failed writes are at paths that do not step up, the failures are the same in some
order. -/
theorem failures_perm (h : first.Reorders second)
    (hfirst : ∀ path e, .write path e ∈ first.failures → .parent ∉ path.components)
    (hsecond : ∀ path e, .write path e ∈ second.failures → .parent ∉ path.components) :
    first.failures.Perm second.failures := by
  have hsettled : ∀ failures : List FileFailure,
      (∀ path e, .write path e ∈ failures → .parent ∉ path.components) →
      failures.map (·.settled) = failures := by
    intro failures hpaths
    rw [List.map_congr_left (g := id), List.map_id]
    intro failure hmem
    cases failure with
    | write path e => exact congrArg _ (causeAt_of_not_mem (hpaths path e hmem) e)
    | _ => rfl
  have hfailures := h.failures
  rwa [hsettled _ hfirst, hsettled _ hsecond] at hfailures

end Reorders

/-- The report of a write alone. -/
def ofWrite (path : Path) : Option Error → Report
  | none => empty.recordWrite path
  | some e => empty.recordFailure (.write path e)

theorem ofWrite_reorders {first? second? : Option Error}
    (h : second?.map (causeAt path) = first?.map (causeAt path)) :
    (ofWrite path first?).Reorders (ofWrite path second?) := by
  cases first? with
  | none =>
      obtain rfl : second? = none := by simpa using h
      exact .refl _
  | some e =>
      obtain ⟨e', rfl, he⟩ := Option.map_eq_some_iff.mp h
      refine ⟨rfl, rfl, rfl, .refl _, ?_⟩
      simp [ofWrite, recordFailure, empty, FileFailure.settled, he]

end Report

namespace Batch

variable {first second third batch : Batch} {dryRun : Bool} {workingDir : Location}
  {fs now : FileSystem} {event other : Event} {events front rest : List Event}

/-- The file system is a tree without links, seen from the directory. -/
structure Grounded (workingDir : Location) (fs : FileSystem) : Prop where
  linkFree : fs.LinkFree
  isTree : fs.IsTree
  workingDir : fs.workingDir = workingDir

namespace Event

/-- What an event adds to a report. -/
def adds (dryRun : Bool) (fs : FileSystem) (event : Event) : Report :=
  (event.perform dryRun ⟨fs, .empty⟩).report

/-- The file system that an event leaves. -/
def leaves (dryRun : Bool) (fs : FileSystem) (event : Event) : FileSystem :=
  (event.perform dryRun ⟨fs, .empty⟩).fs

/-- Neither the file system that is left nor the addition depends on the report so far. -/
theorem perform_eq (dryRun : Bool) (batch : Batch) (event : Event) :
    event.perform dryRun batch =
      ⟨event.leaves dryRun batch.fs, batch.report.append (event.adds dryRun batch.fs)⟩ := by
  have hwrite : ∀ path, batch.report.recordWrite path =
      batch.report.append (Report.empty.recordWrite path) := fun path => by
    simp [Report.recordWrite, Report.append, Report.empty]
  have hfailure : ∀ failure, batch.report.recordFailure failure =
      batch.report.append (Report.empty.recordFailure failure) := fun failure => by
    simp [Report.recordFailure, Report.append, Report.empty]
  cases event with
  | input => simp [leaves, adds, perform, Report.recordInput, Report.append, Report.empty]
  | failure cause => simp only [leaves, adds, perform, fail, hfailure]
  | write path text =>
      simp only [leaves, adds, perform, Batch.write]
      cases dryRun with
      | true => simp only [if_true, hwrite]
      | false =>
          rcases hresult : batch.fs.overwrite path text with ⟨_ | e, after⟩
          · simp only [Bool.false_eq_true, if_false, hwrite]
          · simp only [Bool.false_eq_true, if_false, hfailure]

theorem leaves_write (fs : FileSystem) (path : Path) (text : Text) :
    (write path text).leaves false fs = (fs.overwrite path text).fs := by
  rw [leaves, perform]
  rcases hresult : fs.overwrite path text with ⟨_ | e, after⟩
  · rw [write_of_none hresult]
  · rw [write_of_some hresult]

theorem adds_write (fs : FileSystem) (path : Path) (text : Text) :
    (write path text).adds false fs = .ofWrite path (fs.overwrite path text).error? := by
  rw [adds, perform]
  rcases hresult : fs.overwrite path text with ⟨_ | e, after⟩
  · rw [write_of_none hresult]
    rfl
  · rw [write_of_some hresult]
    rfl

/-- The event leaves every file system as it is and adds the same wherever it happens. -/
structure Still (dryRun : Bool) (event : Event) : Prop where
  leaves : ∀ fs, event.leaves dryRun fs = fs
  adds : ∀ fs now, event.adds dryRun fs = event.adds dryRun now

/-- Only a real write to a path that is not empty is not still. -/
theorem still_or_write (dryRun : Bool) (event : Event) :
    event.Still dryRun ∨
      ∃ path text, path.text ≠ [] ∧ dryRun = false ∧ event = .write path text := by
  cases event with
  | input => exact Or.inl ⟨fun _ => rfl, fun _ _ => rfl⟩
  | failure cause => exact Or.inl ⟨fun _ => rfl, fun _ _ => rfl⟩
  | write path text =>
      cases dryRun with
      | true => exact Or.inl ⟨fun _ => rfl, fun _ _ => rfl⟩
      | false =>
          by_cases hempty : path.text = []
          · refine Or.inl ⟨fun fs => ?_, fun fs now => ?_⟩
            · rw [leaves_write, overwrite_of_nil fs hempty]
            · rw [adds_write, adds_write, overwrite_of_nil fs hempty, overwrite_of_nil now hempty]
          · exact Or.inr ⟨path, text, hempty, rfl, rfl⟩

/-- What both events write, if anything, goes to paths that are apart. -/
def Separate (workingDir : Location) (event other : Event) : Prop :=
  ∀ write ∈ event.write?, ∀ more ∈ other.write?, write.1.text ≠ [] → more.1.text ≠ [] →
    Apart workingDir write.1 more.1

theorem Separate.symm (h : Separate workingDir event other) : Separate workingDir other event :=
  fun write hwrite more hmore hne hne' => (h more hmore write hwrite hne' hne).symm

section Grounded

variable (hfs : Grounded workingDir fs)
include hfs

theorem grounded_leaves (dryRun : Bool) (event : Event) :
    Grounded workingDir (event.leaves dryRun fs) := by
  obtain ⟨hlinks, htree, hdir⟩ := hfs
  rcases event.still_or_write dryRun with hstill | ⟨path, text, -, rfl, rfl⟩
  · rw [hstill.leaves]
    exact ⟨hlinks, htree, hdir⟩
  · rw [leaves_write]
    exact ⟨linkFree_overwrite hlinks path text, htree.overwrite path text,
      (retains_overwrite hlinks path text).workingDir.trans hdir⟩

/-- An event leaves the same entries where there were the same ones before. -/
theorem sameEntries_leaves (h : fs.SameEntries now) (dryRun : Bool) (event : Event) :
    (event.leaves dryRun fs).SameEntries (event.leaves dryRun now) := by
  rcases event.still_or_write dryRun with hstill | ⟨path, text, -, rfl, rfl⟩
  · rwa [hstill.leaves, hstill.leaves]
  · rw [leaves_write, leaves_write]
    exact h.overwrite hfs.linkFree hfs.isTree path text

/-- An event adds the same where there are the same entries. -/
theorem reorders_adds (h : fs.SameEntries now) (dryRun : Bool) (event : Event) :
    (event.adds dryRun fs).Reorders (event.adds dryRun now) := by
  rcases event.still_or_write dryRun with hstill | ⟨path, text, -, rfl, rfl⟩
  · rw [hstill.adds fs now]
    exact .refl _
  · rw [adds_write, adds_write]
    exact Report.ofWrite_reorders (h.error?_overwrite hfs.linkFree hfs.isTree path text)

/-- Separate events leave the same entries in either order. -/
theorem Separate.leaves_comm (h : Separate workingDir event other) (dryRun : Bool) :
    (other.leaves dryRun (event.leaves dryRun fs)).SameEntries
      (event.leaves dryRun (other.leaves dryRun fs)) := by
  rcases event.still_or_write dryRun with hstill | ⟨path, text, hpath, rfl, rfl⟩
  · rw [hstill.leaves, hstill.leaves]
    exact .refl _
  rcases other.still_or_write false with hstill | ⟨more, others, hmore, -, rfl⟩
  · rw [hstill.leaves, hstill.leaves]
    exact .refl _
  · obtain ⟨hlinks, htree, rfl⟩ := hfs
    simp only [leaves_write]
    exact (h _ rfl _ rfl hpath hmore).overwrite_comm hlinks htree text others

/-- An event adds the same before and after a separate one. -/
theorem Separate.reorders_adds (h : Separate workingDir event other) (dryRun : Bool) :
    (event.adds dryRun fs).Reorders (event.adds dryRun (other.leaves dryRun fs)) := by
  rcases event.still_or_write dryRun with hstill | ⟨path, text, hpath, rfl, rfl⟩
  · rw [hstill.adds fs (other.leaves dryRun fs)]
    exact .refl _
  rcases other.still_or_write false with hstill | ⟨more, others, hmore, -, rfl⟩
  · rw [hstill.leaves]
    exact .refl _
  · obtain ⟨hlinks, htree, rfl⟩ := hfs
    rw [adds_write, adds_write, leaves_write]
    exact Report.ofWrite_reorders
      ((h _ rfl _ rfl hpath hmore).error?_overwrite hlinks htree text others)

end Grounded

end Event

/-- The batches have come to the same entries, and their reports agree up to order. -/
structure Agrees (first second : Batch) : Prop where
  entries : first.fs.SameEntries second.fs
  report : first.report.Reorders second.report

namespace Agrees

theorem refl (batch : Batch) : batch.Agrees batch :=
  ⟨.refl _, .refl _⟩

theorem trans (h : first.Agrees second) (hnext : second.Agrees third) : first.Agrees third :=
  ⟨h.entries.trans hnext.entries, h.report.trans hnext.report⟩

end Agrees

/-- A failed write is one of the events, or it was recorded as a failure. -/
theorem mem_failures_performAll {path : Path} {e : Error}
    (h : .write path e ∈ (batch.performAll dryRun events).report.failures) :
    .write path e ∈ batch.report.failures ∨ .write path e ∈ events.filterMap Event.failure? ∨
      ∃ text, (path, text) ∈ events.filterMap Event.write? := by
  induction events generalizing batch with
  | nil => exact Or.inl h
  | cons event events ih =>
      rcases ih h with hfirst | hfailure | ⟨text, hwrite⟩
      · cases event with
        | input => exact Or.inl hfirst
        | failure cause =>
            rcases List.mem_append.mp hfirst with hbefore | hnew
            · exact Or.inl hbefore
            · rw [List.mem_singleton] at hnew
              rw [hnew]
              exact Or.inr (Or.inl List.mem_cons_self)
        | write destination text =>
            rcases report_write batch dryRun destination text with hreport | ⟨cause, hreport⟩
            · rw [Event.perform, hreport] at hfirst
              exact Or.inl hfirst
            · rw [Event.perform, hreport, Report.failures_recordFailure] at hfirst
              rcases List.mem_append.mp hfirst with hbefore | hnew
              · exact Or.inl hbefore
              · rw [List.mem_singleton, FileFailure.write.injEq] at hnew
                exact Or.inr (Or.inr ⟨text, hnew.1 ▸ List.mem_cons_self⟩)
      · right
        left
        obtain ⟨found, hfound, hsome⟩ := List.mem_filterMap.mp hfailure
        exact List.mem_filterMap.mpr ⟨found, List.mem_cons_of_mem _ hfound, hsome⟩
      · right
        right
        obtain ⟨found, hfound, hsome⟩ := List.mem_filterMap.mp hwrite
        exact ⟨text, List.mem_filterMap.mpr ⟨found, List.mem_cons_of_mem _ hfound, hsome⟩⟩

theorem grounded_perform (h : Grounded workingDir batch.fs) (dryRun : Bool) (event : Event) :
    Grounded workingDir (event.perform dryRun batch).fs :=
  Event.perform_eq dryRun batch event ▸ Event.grounded_leaves h dryRun event

theorem grounded_performAll (h : Grounded workingDir batch.fs) (dryRun : Bool)
    (events : List Event) : Grounded workingDir (batch.performAll dryRun events).fs := by
  induction events generalizing batch with
  | nil => exact h
  | cons event events ih => exact ih (grounded_perform h dryRun event)

/-- An event keeps batches in agreement. -/
theorem Agrees.perform (h : first.Agrees second) (hfirst : Grounded workingDir first.fs)
    (dryRun : Bool) (event : Event) :
    (event.perform dryRun first).Agrees (event.perform dryRun second) := by
  rw [Event.perform_eq, Event.perform_eq]
  exact ⟨Event.sameEntries_leaves hfirst h.entries dryRun event,
    h.report.append (Event.reorders_adds hfirst h.entries dryRun event)⟩

theorem Agrees.performAll (h : first.Agrees second) (hfirst : Grounded workingDir first.fs)
    (dryRun : Bool) (events : List Event) :
    (first.performAll dryRun events).Agrees (second.performAll dryRun events) := by
  induction events generalizing first second with
  | nil => exact h
  | cons event events ih =>
      exact ih (h.perform hfirst dryRun event) (grounded_perform hfirst dryRun event)

/-- Two separate events can change places. -/
theorem perform_comm (hbatch : Grounded workingDir batch.fs)
    (h : event.Separate workingDir other) (dryRun : Bool) :
    (other.perform dryRun (event.perform dryRun batch)).Agrees
      (event.perform dryRun (other.perform dryRun batch)) := by
  have hevent := h.reorders_adds hbatch dryRun
  have hother := h.symm.reorders_adds hbatch dryRun
  simp only [Event.perform_eq]
  refine ⟨h.leaves_comm hbatch dryRun, ?_⟩
  exact (((Report.Reorders.refl _).append hevent).append hother.symm).trans (.append_comm _ _ _)

/-- An event can change places with a list of events that are separate from it. -/
theorem performAll_concat (hbatch : Grounded workingDir batch.fs)
    (h : ∀ other ∈ events, event.Separate workingDir other) (dryRun : Bool) :
    (batch.performAll dryRun (event :: events)).Agrees
      (batch.performAll dryRun (events ++ [event])) := by
  induction events generalizing batch with
  | nil => exact .refl _
  | cons other events ih =>
      have hswap := perform_comm hbatch (h other List.mem_cons_self) dryRun
      have hgrounded := grounded_perform (grounded_perform hbatch dryRun event) dryRun other
      have hrest := ih (grounded_perform hbatch dryRun other) fun more hmore =>
        h more (List.mem_cons_of_mem _ hmore)
      exact (hswap.performAll hgrounded dryRun events).trans hrest

/-- Two lists of events can change places when their events are separate. -/
theorem performAll_comm (hbatch : Grounded workingDir batch.fs)
    (h : ∀ event ∈ front, ∀ other ∈ rest, event.Separate workingDir other) (dryRun : Bool) :
    (batch.performAll dryRun (front ++ rest)).Agrees
      (batch.performAll dryRun (rest ++ front)) := by
  induction front generalizing batch with
  | nil =>
      rw [List.nil_append, List.append_nil]
      exact .refl _
  | cons event front ih =>
      have hrest := ih (grounded_perform hbatch dryRun event) fun more hmore =>
        h more (List.mem_cons_of_mem _ hmore)
      have hevent := performAll_concat hbatch (h event List.mem_cons_self) dryRun
      have hgrounded := grounded_performAll hbatch dryRun (event :: rest)
      have hfront := hevent.performAll hgrounded dryRun front
      rw [← performAll_append, ← performAll_append, List.append_assoc] at hfront
      exact Agrees.trans hrest hfront

/-- Items whose events are separate can be taken in any order. -/
theorem performAll_perm {Item : Type} {items others : List Item} (eventsOf : Item → List Event)
    (hperm : items.Perm others) (hbatch : Grounded workingDir batch.fs)
    (h : ∀ a ∈ items, ∀ b ∈ items, a ≠ b → ∀ event ∈ eventsOf a, ∀ other ∈ eventsOf b,
      event.Separate workingDir other) (dryRun : Bool) :
    (batch.performAll dryRun (items.flatMap eventsOf)).Agrees
      (batch.performAll dryRun (others.flatMap eventsOf)) := by
  induction hperm generalizing batch with
  | nil => exact .refl _
  | cons item hperm ih =>
      rw [List.flatMap_cons, List.flatMap_cons, performAll_append, performAll_append]
      apply ih (grounded_performAll hbatch dryRun _)
      intro a ha b hb
      exact h a (List.mem_cons_of_mem _ ha) b (List.mem_cons_of_mem _ hb)
  | swap a b items =>
      simp only [List.flatMap_cons]
      rw [← List.append_assoc, ← List.append_assoc, performAll_append,
        performAll_append dryRun batch (eventsOf a ++ eventsOf b)]
      by_cases hsame : b = a
      · rw [hsame]
        exact .refl _
      · have hswap := performAll_comm hbatch (h b (by simp) a (by simp) hsame) dryRun
        exact hswap.performAll (grounded_performAll hbatch dryRun _) dryRun _
  | trans hfirst _ ih ih' =>
      refine (ih hbatch h).trans (ih' hbatch fun a ha b hb => ?_)
      exact h a (hfirst.mem_iff.mpr ha) b (hfirst.mem_iff.mpr hb)

end Batch

end TreeFold
