import PacedCall.Status

/-!
What an error is reported as. The chain of an error is searched from its outermost link on, and a
status that is found is reported with all that stands behind it. Links that are no statuses may
thus be put around a status without changing the report; around anything else they are the report.
-/
namespace PacedCall

variable {outer links behind : List Link} {st : Status}

def Statusless (links : List Link) : Prop := ∀ st, .status st ∉ links

theorem Link.status?_of_ne {l : Link} (h : ∀ st, l ≠ .status st) : l.status? = none := by
  cases l with
  | status st => exact absurd rfl (h st)
  | _ => rfl

/-- Links that are no statuses are passed over. -/
theorem outermostStatus_append (h : Statusless outer) :
    outermostStatus (outer ++ links) = outermostStatus links := by
  induction outer with
  | nil => rfl
  | cons l outer ih =>
    have hnone := Link.status?_of_ne fun st hl => h st (hl ▸ List.mem_cons_self)
    rw [List.cons_append, outermostStatus, hnone]
    exact ih fun st hst => h st (List.mem_cons_of_mem _ hst)

theorem outermostStatus_of_statusless (h : Statusless links) : outermostStatus links = none := by
  have happend : outermostStatus (links ++ []) = none := outermostStatus_append h
  rwa [List.append_nil] at happend

/-- A chain holds no status, or it has an outermost one. -/
theorem statusless_or_outermost (links : List Link) :
    Statusless links ∨
      ∃ outer st behind, links = outer ++ .status st :: behind ∧ Statusless outer := by
  induction links with
  | nil => exact .inl fun st => List.not_mem_nil
  | cons l links ih =>
    by_cases hl : ∃ st, l = .status st
    · obtain ⟨st, rfl⟩ := hl
      exact .inr ⟨[], st, links, rfl, fun st => List.not_mem_nil⟩
    · have hcons : ∀ {ls}, Statusless ls → Statusless (l :: ls) := fun hls st hst =>
        (List.mem_cons.mp hst).elim (fun he => hl ⟨st, he.symm⟩) (hls st)
      obtain hnone | ⟨outer, st, behind, rfl, houter⟩ := ih
      · exact .inl (hcons hnone)
      · exact .inr ⟨l :: outer, st, behind, rfl, hcons houter⟩

theorem QueueError.shown_ne (st : Status) : (terminated st).shown ≠ st.message := by
  have hlonger : "queue terminated: " ++ st.message ≠ st.message := by
    rw [ne_eq, String.append_eq_right_iff]
    decide
  exact hlonger

namespace Failure

variable {f : Failure}

def within (texts : List String) (f : Failure) : Failure :=
  texts.foldr (fun text inner => ⟨.text text, inner.links⟩) f

theorem links_within (texts : List String) (f : Failure) :
    (f.within texts).links = texts.map .text ++ f.links := by
  induction texts with
  | nil => rfl
  | cons text texts ih => exact congrArg (Link.text text :: ·) ih

theorem statusless_texts (texts : List String) : Statusless (texts.map .text) := by
  simp [Statusless]

def reported (f : Failure) : Failure := ⟨.status f.report.1, f.report.2⟩

theorem report_of_outermost (hlinks : f.links = outer ++ .status st :: behind)
    (h : Statusless outer) : f.report = (st, behind) := by
  rw [report, hlinks, outermostStatus_append h]
  rfl

theorem report_of_statusless (h : Statusless f.links) :
    f.report = (⟨if f.head.isCancelled then .cancelled else .unknown, f.head.shown, []⟩, f.links) := by
  rw [report, outermostStatus_of_statusless h]

/-- Texts around a chain that holds a status are not reported. -/
theorem report_within (texts : List String) (h : ¬ Statusless f.links) :
    (f.within texts).report = f.report := by
  obtain ⟨outer, st, behind, hlinks, houter⟩ := (statusless_or_outermost f.links).resolve_left h
  have hwithin : (f.within texts).links = (texts.map .text ++ outer) ++ .status st :: behind := by
    rw [links_within, hlinks, List.append_assoc]
  rw [report_of_outermost hlinks houter, report_of_outermost hwithin]
  intro st hst
  exact (List.mem_append.mp hst).elim (statusless_texts texts st) (houter st)

/-- The report of an error. The outermost status of its chain is reported as it is, with all that
stands behind it. An error without one is shown by its outermost link, and that alone says whether
it is a cancellation. What is reported is reported the same again, whatever is put around it, and so
is any error that holds a status. -/
theorem report_exact (f : Failure) :
    ((∃ outer st behind, f.links = outer ++ .status st :: behind ∧ Statusless outer ∧
        f.report = (st, behind)) ∨
      Statusless f.links ∧ ∃ code, f.report = (⟨code, f.head.shown, []⟩, f.links) ∧
        ((code = .cancelled ∧ ∃ reason, f.head = .cancelled reason) ∨
          (code = .unknown ∧ ∀ reason, f.head ≠ .cancelled reason))) ∧
      ∀ texts, (f.reported.within texts).report = f.report ∧
        (¬ Statusless f.links → (f.within texts).report = f.report) := by
  refine ⟨?_, fun texts => ⟨?_, report_within texts⟩⟩
  · obtain hnone | ⟨outer, st, behind, hlinks, houter⟩ := statusless_or_outermost f.links
    · refine .inr ⟨hnone, _, report_of_statusless hnone, ?_⟩
      cases f.head with
      | cancelled reason => exact .inl ⟨rfl, reason, rfl⟩
      | _ => exact .inr ⟨rfl, by simp⟩
    · exact .inl ⟨outer, st, behind, hlinks, houter, report_of_outermost hlinks houter⟩
  · exact report_within texts fun h => h f.report.1 (by simp [reported, links])

/-- A status with a marker behind it, within two texts, is reported as it is, and the marker stays
behind it. -/
theorem report_exact_nested :
    let f : Failure := ⟨.status ⟨.notFound, "gone", []⟩, [.cancelled "stopped"]⟩
    (f.within ["outer", "inner"]).report = (⟨.notFound, "gone", []⟩, [.cancelled "stopped"]) := by
  intro f
  have hholds : ¬ Statusless f.links := fun h => h ⟨.notFound, "gone", []⟩ (by simp [f, links])
  exact ((report_exact f).2 ["outer", "inner"]).2 hholds

/-- A marker counts only where it is outermost. -/
example : (within ["outer"] ⟨.cancelled "stopped", []⟩).report =
    (⟨.unknown, "outer", []⟩, [.text "outer", .cancelled "stopped"]) := rfl

/-! A queue that was terminated. Its error holds the status as a value, and not as a link behind
it, so that the status is not found where the error is reported. -/

theorem shown_within (texts : List String) (f : Failure) :
    (f.within texts).head.shown = texts.head?.getD f.head.shown := by
  cases texts <;> rfl

/-- The error of a queue is reported as unknown, within whatever texts. -/
theorem report_queue (e : QueueError) (texts : List String) :
    let f := (ofQueue e).within texts
    f.report = (⟨.unknown, f.head.shown, []⟩, f.links) := by
  intro f
  have hnone : Statusless f.links := by
    rw [links_within]
    simp [Statusless, ofQueue, links]
  have hmarker : f.head.isCancelled = false := by
    cases texts <;> rfl
  rw [report_of_statusless hnone, hmarker]
  rfl

theorem toStatus_ofQueue (e : QueueError) : (ofQueue e).toStatus = ⟨.unknown, e.shown, []⟩ :=
  congrArg Prod.fst (report_queue e [])

/-- What is reported of a terminated queue is of the status that it was terminated with only where
that was unknown, and the outermost text happens to be its message. -/
theorem report_terminated_iff (st : Status) (texts : List String) :
    let f := (ofQueue (.terminated st)).within texts
    (f.toStatus.code = st.code ∧ f.toStatus.message = st.message) ↔
      st.code = .unknown ∧ texts.head? = some st.message := by
  intro f
  have hreport : f.toStatus = ⟨.unknown, f.head.shown, []⟩ :=
    congrArg Prod.fst (report_queue _ texts)
  rw [hreport, shown_within, eq_comm]
  refine and_congr_right fun _ => ?_
  cases texts with
  | nil => exact ⟨fun h => absurd h (QueueError.shown_ne st), nofun⟩
  | cons text texts => simp

end Failure
end PacedCall
