import Coprocess.Proofs.Pool.Sharing
import Coprocess.Proofs.Supervision.Reports
import Coprocess.Proofs.Supervision.Tallies

/-!
# What the run of a pool comes to

* **`Pool.exists_reaches`**: a pool that has run successfully has taken steps in some order.
-/

namespace Coprocess

namespace Pool

variable {σ : Type} {act : σ → Act σ} {s p p' : Pool σ} {j : Journal} {now : Nat}
  {report? : Option Report}

theorem reaches_advance (h : Reaches act s p j)
    (hs : p.advance act now = some (p', report?)) :
    ∃ j', Reaches act s p' j' ∧ j'.reports = j.reports ++ report?.toList := by
  obtain ⟨actor, -, ha⟩ := List.exists_of_findSome?_eq_some hs
  exact ⟨_, .step h now actor ha, rfl⟩

/-- **A pool that has run successfully** has taken steps in some order, after which all its stages
have reported, and its report is what these reports come to. -/
theorem exists_reaches {child : Child Program} {settings : PoolSettings} {inputs : List Supply}
    {outlet : Outlet} {r : PoolRun} (h : runPool child settings inputs outlet = some r)
    {report : PoolReport} (hok : r.result = .ok report) :
    ∃ p j, Reaches Program.act (settings.start child inputs outlet) p j ∧
      j.reports.length = settings.stages inputs ∧
      settings.join (supervise j.reports) p.outlet = (.ok report, r.outlet) := by
  obtain ⟨⟨outcome, s⟩, hrun, hr⟩ := Option.bind_eq_some_iff.mp h
  cases hr
  have hjoin : settings.join outcome s.state.outlet =
      (.ok report, (settings.join outcome s.state.outlet).2) := Prod.ext hok rfl
  obtain ⟨counts, rfl, -⟩ := join_ok hjoin
  obtain ⟨all, ⟨j, hj, rfl⟩, hall, hlen⟩ := Schedule.run_ok
    (fun p reports => ∃ j, Reaches Program.act (settings.start child inputs outlet) p j ∧
      j.reports = reports)
    (fun now p p' report? reports hp hs => by
      obtain ⟨j, hj, rfl⟩ := hp
      exact reaches_advance hj hs)
    (Schedule.inv_start _ _) ⟨{}, .start, rfl⟩ hrun
  exact ⟨s.state, j, hj, hlen, by rw [hall]; exact hjoin⟩

end Pool

end Coprocess
