import Bluefrog.Lib.Exposition
import Bluefrog.Metrics.Metrics

/-!
The page of the metrics, read back. The counters may be loaded one by one while others increment them: a page is
one of whatever values were loaded.
-/

open Rust Exposition

namespace Bluefrog
namespace Metrics

/-- The counters as they were loaded. -/
def ofLoads (loads : Counter → UInt64) : Metrics where
  udpAnnounces := loads .udpAnnounce
  udpScrapes := loads .udpScrape
  udpConnects := loads .udpConnect
  udpConnidMismatch := loads .udpConnidMismatch
  udpDropped := loads .udpDropped
  httpAnnounces := loads .httpAnnounce
  httpScrapes := loads .httpScrape
  errors := loads .error
  l7Flagged := loads .l7Flagged
  l7Bans := loads .l7Ban
  l7BansEscalated := loads .l7BanEscalated
  nftErrors := loads .nftError

theorem field_ofLoads (loads : Counter → UInt64) (c : Counter) : (ofLoads loads).field c = loads c := by
  cases c <;> rfl

theorem isWord_of_mem_counters : ∀ metric ∈ counters, IsWord metric.1 := by decide

theorem isWord_of_mem_gaugeValues (g : Gauges) : ∀ metric ∈ gaugeValues g, IsWord metric.1 := by
  simp only [gaugeValues, List.forall_mem_cons]
  exact ⟨by decide, by decide, by decide, by decide, by decide, fun _ h => absurd h List.not_mem_nil⟩

/-- Metrics of one kind, from their names and what their values are of. -/
def metricsWith {α : Type} {kind : List UInt8} (hkind : IsWord kind) (value : α → UInt64)
    (named : List (List UInt8 × α)) (h : ∀ metric ∈ named, IsWord metric.1) : List Metric :=
  named.pmap (fun metric hname => ⟨kind, metric.1, value metric.2, hkind, hname⟩) h

/-- What a page gives: the counters, then the gauges. -/
def metricsOf (m : Metrics) (g : Gauges) : List Metric :=
  metricsWith (show IsWord (ascii "counter") by decide) m.field counters isWord_of_mem_counters ++
    metricsWith (show IsWord (ascii "gauge") by decide) id (gaugeValues g) (isWord_of_mem_gaugeValues g)

/-- Metrics that are appended one after the other are written as they are written together. -/
theorem foldl_metricLines {α : Type} {kind : List UInt8} (hkind : IsWord kind) (value : α → UInt64)
    (named : List (List UInt8 × α)) (h : ∀ metric ∈ named, IsWord metric.1) (out : List UInt8) :
    named.foldl (fun out metric => out ++ metricLines kind metric.1 (value metric.2)) out =
      out ++ write (metricsWith hkind value named h) := by
  induction named generalizing out with
  | nil => exact (List.append_nil out).symm
  | cons metric named ih =>
      have hlines : metricLines kind metric.1 (value metric.2) =
          write [⟨kind, metric.1, value metric.2, hkind, h metric List.mem_cons_self⟩] := by
        simp [metricLines, write, Metric.typeLine, Metric.sampleLine, show ascii " " = [32] from rfl,
          show ascii "\n" = [10] from rfl]
      rw [List.foldl_cons, ih fun metric' hmem => h metric' (List.mem_cons_of_mem _ hmem), hlines, List.append_assoc,
        ← write_append]
      rfl

/-- A page is what is written of its metrics. -/
theorem render_eq_write (m : Metrics) (g : Gauges) : m.render g = write (m.metricsOf g) := by
  have hcounters := foldl_metricLines (show IsWord (ascii "counter") by decide) m.field counters
    isWord_of_mem_counters []
  have hgauges := foldl_metricLines (show IsWord (ascii "gauge") by decide) id (gaugeValues g)
    (isWord_of_mem_gaugeValues g)
  simp only [id_eq] at hgauges
  rw [render, hcounters, hgauges, List.nil_append, metricsOf, write_append]

/-- A page is read back. -/
theorem read_render (m : Metrics) (g : Gauges) : read (m.render g) = some (m.metricsOf g) := by
  rw [render_eq_write, read_write]

end Metrics
end Bluefrog
