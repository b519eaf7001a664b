import Mathlib.Data.List.Basic
import Mathlib.Data.List.Nodup
import Mathlib.Tactic.Common

/-! Histories of concurrent operations whose effect happens at one commit event
between invocation and return. The order of the commits is a sequential order of
the operations that respects real time, so it linearizes the history; the last
commit among those that meet a test is the last write for that test. -/
namespace Linearization

variable {ω : Type*}

def Precedes (l : List ω) (x y : ω) : Prop := [x, y].Sublist l

theorem precedes_snoc (l : List ω) (x y z : ω) :
    Precedes (l ++ [z]) x y ↔ Precedes l x y ∨ y = z ∧ x ∈ l := by
  unfold Precedes
  constructor
  · intro h
    obtain ⟨front, back, split, inFront, inBack⟩ := List.sublist_append_iff.1 h
    rcases List.sublist_cons_iff.1 inBack with none | ⟨rest, rfl, none⟩
    · rw [List.sublist_nil.1 none, List.append_nil] at split
      exact .inl (split ▸ inFront)
    · rw [List.sublist_nil.1 none] at split
      have split : [x] ++ [y] = front ++ [z] := split
      obtain ⟨rfl, last⟩ := List.append_inj' split rfl
      exact .inr ⟨List.head_eq_of_cons_eq last, List.singleton_sublist.1 inFront⟩
  · rintro (h | ⟨rfl, h⟩)
    · exact h.trans (List.sublist_append_left l [z])
    · exact (List.singleton_sublist.2 h).append (List.Sublist.refl [y])

theorem Precedes.mem_left {l : List ω} {x y : ω} (h : Precedes l x y) : x ∈ l :=
  h.subset List.mem_cons_self

theorem Precedes.mem_of_split {front back : List ω} {x y : ω}
    (once : (front ++ x :: back).Nodup) (h : Precedes (front ++ x :: back) x y) : y ∈ back := by
  have fresh : x ∉ front := fun hx =>
    (List.nodup_append.1 once).2.2 x hx x List.mem_cons_self rfl
  have once' : x ∉ back := (List.nodup_cons.1 (List.nodup_append.1 once).2.1).1
  induction front with
  | nil =>
    rcases List.sublist_cons_iff.1 h with later | ⟨rest, split, later⟩
    · exact absurd (later.subset List.mem_cons_self) once'
    · rw [← (List.cons.inj split).2] at later
      exact List.singleton_sublist.1 later
  | cons z front ih =>
    obtain ⟨hz, hf⟩ := List.ne_and_not_mem_of_not_mem_cons fresh
    rcases List.sublist_cons_iff.1 h with later | ⟨rest, split, -⟩
    · exact ih (List.nodup_cons.1 once).2 later hf
    · exact absurd (List.cons.inj split).1 hz

theorem Precedes.asymm {l : List ω} {x y : ω} (once : l.Nodup) (h : Precedes l x y) :
    ¬ Precedes l y x := by
  intro back
  obtain ⟨front, later, rfl⟩ := List.append_of_mem h.mem_left
  obtain ⟨middle, last, rfl⟩ := List.append_of_mem (h.mem_of_split once)
  rw [← List.cons_append, ← List.append_assoc] at once back
  have again := back.mem_of_split once
  exact (List.nodup_append.1 once).2.2 x (by simp) x (List.mem_cons_of_mem _ again) rfl

theorem exists_last (on : ω → Prop) [DecidablePred on] (l : List ω) (h : ∃ x ∈ l, on x) :
    ∃ front x back, l = front ++ x :: back ∧ on x ∧ ∀ y ∈ back, ¬ on y := by
  induction l with
  | nil => simp at h
  | cons a l ih =>
    by_cases later : ∃ x ∈ l, on x
    · obtain ⟨front, x, back, rfl, hx, rest⟩ := ih later
      exact ⟨a :: front, x, back, rfl, hx, rest⟩
    · refine ⟨[], a, l, rfl, ?_, fun y hy hon => later ⟨y, hy, hon⟩⟩
      obtain ⟨x, hx, hon⟩ := h
      rcases List.mem_cons.1 hx with rfl | hx
      · exact hon
      · exact absurd ⟨x, hx, hon⟩ later

inductive Event (ω : Type*) where
  | invoke (o : ω)
  | commit (o : ω)
  | ret (o : ω)
  deriving DecidableEq

/-- Every operation is invoked, then committed once, then returned. -/
inductive Legal : List (Event ω) → Prop
  | nil : Legal []
  | invoke {h o} : Legal h → .invoke o ∉ h → Legal (h ++ [.invoke o])
  | commit {h o} : Legal h → .invoke o ∈ h → .commit o ∉ h → Legal (h ++ [.commit o])
  | ret {h o} : Legal h → .commit o ∈ h → Legal (h ++ [.ret o])

def commits (h : List (Event ω)) : List ω :=
  h.filterMap fun | .commit o => some o | _ => none

@[simp] theorem commits_nil : commits ([] : List (Event ω)) = [] := rfl

@[simp] theorem commits_invoke (h : List (Event ω)) (o : ω) :
    commits (h ++ [.invoke o]) = commits h := by simp [commits]

@[simp] theorem commits_commit (h : List (Event ω)) (o : ω) :
    commits (h ++ [.commit o]) = commits h ++ [o] := by simp [commits]

@[simp] theorem commits_ret (h : List (Event ω)) (o : ω) :
    commits (h ++ [.ret o]) = commits h := by simp [commits]

theorem mem_commits {h : List (Event ω)} {o : ω} : o ∈ commits h ↔ .commit o ∈ h := by
  simp only [commits, List.mem_filterMap]
  constructor
  · rintro ⟨e, he, eq⟩
    cases e <;> simp_all
  · exact fun hc => ⟨_, hc, rfl⟩

theorem Legal.nodup_commits {h : List (Event ω)} (legal : Legal h) : (commits h).Nodup := by
  induction legal with
  | nil => exact List.nodup_nil
  | invoke _ _ ih => simpa using ih
  | commit _ _ fresh ih =>
    rw [commits_commit]
    refine ih.append (List.nodup_singleton _) ?_
    simpa [List.disjoint_singleton, mem_commits] using fresh
  | ret _ _ ih => simpa using ih

theorem Legal.invoke_of_commit {h : List (Event ω)} (legal : Legal h) {o : ω}
    (hc : .commit o ∈ h) : .invoke o ∈ h := by
  induction legal with
  | nil => simp at hc
  | invoke _ _ ih => simp_all
  | commit _ inv _ ih =>
    rcases List.mem_append.1 hc with hc | hc
    · exact List.mem_append_left _ (ih hc)
    · rw [Event.commit.inj (List.mem_singleton.1 hc)]
      exact List.mem_append_left _ inv
  | ret _ _ ih => simp_all

theorem Legal.commit_of_ret {h : List (Event ω)} (legal : Legal h) {o : ω}
    (hr : .ret o ∈ h) : .commit o ∈ h := by
  induction legal with
  | nil => simp at hr
  | invoke _ _ ih => simp_all
  | commit _ _ _ ih => simp_all
  | ret _ com ih =>
    rcases List.mem_append.1 hr with hr | hr
    · exact List.mem_append_left _ (ih hr)
    · rw [Event.ret.inj (List.mem_singleton.1 hr)]
      exact List.mem_append_left _ com

/-- An operation that returned before another was invoked committed first. -/
theorem Legal.realTime {h : List (Event ω)} (legal : Legal h) {a b : ω}
    (before : Precedes h (.ret a) (.invoke b)) (done : .commit b ∈ h) :
    Precedes (commits h) a b := by
  induction legal with
  | nil => simp at done
  | @invoke h o legal fresh ih =>
    rw [commits_invoke]
    have done : Event.commit b ∈ h := by simpa using done
    rcases (precedes_snoc _ _ _ _).1 before with before | ⟨eq, -⟩
    · exact ih before done
    · rw [Event.invoke.inj eq] at done
      exact absurd (legal.invoke_of_commit done) fresh
  | @commit h o legal inv fresh ih =>
    rw [commits_commit, precedes_snoc]
    rcases (precedes_snoc _ _ _ _).1 before with before | ⟨eq, -⟩
    · rcases List.mem_append.1 done with done | done
      · exact .inl (ih before done)
      · exact .inr ⟨Event.commit.inj (List.mem_singleton.1 done),
          mem_commits.2 (legal.commit_of_ret before.mem_left)⟩
    · exact absurd eq (by simp)
  | @ret h o legal com ih =>
    rw [commits_ret]
    rcases (precedes_snoc _ _ _ _).1 before with before | ⟨eq, -⟩
    · exact ih before (by simpa using done)
    · exact absurd eq (by simp)

/-- A total order of the operations of a history that never puts an operation
before one that had returned when it was invoked. -/
structure Linearizes (h : List (Event ω)) (order : List ω) : Prop where
  once : order.Nodup
  returned : ∀ o, .ret o ∈ h → o ∈ order
  realTime : ∀ a b, Precedes h (.ret a) (.invoke b) → b ∈ order → Precedes order a b

theorem Legal.linearizes {h : List (Event ω)} (legal : Legal h) : Linearizes h (commits h) where
  once := legal.nodup_commits
  returned _ hr := mem_commits.2 (legal.commit_of_ret hr)
  realTime _ _ before done := legal.realTime before (mem_commits.1 done)

end Linearization
