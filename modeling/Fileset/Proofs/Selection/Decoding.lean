import Fileset.Proofs.Command.Selecting
import Fileset.Proofs.Text.Bytes
import Fileset.Proofs.Walk.Named
import Fileset.Proofs.Walk.Turns

namespace Fileset

theorem mapM_eq_some_of_map {f : α → Option β} {as : List α} {bs : List β}
    (h : as.map f = bs.map some) : as.mapM f = some bs :=
  calc as.mapM f = (as.map f).mapM id := (List.mapM_map (f := f) (g := id)).symm
    _ = (bs.map some).mapM id := by rw [h]
    _ = bs.mapM some := List.mapM_map (f := some) (g := id)
    _ = some bs := by simpa using List.mapM_pure (m := Option) (f := id) (l := bs)

namespace RelPath

/-- Read one item. A slash at its end says that it is a directory; the other slashes part its names. -/
def ofItem? (item : Bytes) : Option RelPath :=
  if item.getLast? = some Path.slash then
    ((item.dropLast.splitOn Path.slash).mapM Bytes.text?).map (⟨·, false⟩)
  else ((item.splitOn Path.slash).mapM Bytes.text?).map (⟨·, true⟩)

def ofItems? (shown : Bytes) : Option (List RelPath) :=
  (shown.splitOn 0).dropLast.mapM ofItem?

variable {p : RelPath}

theorem ofText_render (p : RelPath) :
    Bytes.ofText p.render = [Path.slash].intercalate (p.segments.map Bytes.ofText) :=
  Bytes.ofText_intercalate "/" p.segments

theorem mapM_text? (names : List String) : (names.map Bytes.ofText).mapM Bytes.text? = some names := by
  apply mapM_eq_some_of_map
  rw [List.map_map]
  exact List.map_congr_left fun name _ => Bytes.text?_ofText name

section Named

variable (h : p.Named)
include h

theorem Named.splitOn_render (hne : p.segments ≠ []) :
    (Bytes.ofText p.render).splitOn Path.slash = p.segments.map Bytes.ofText := by
  rw [ofText_render]
  refine List.splitOn_intercalate _ ?_ (by simpa using hne)
  intro piece hpiece
  obtain ⟨name, hname, rfl⟩ := List.mem_map.mp hpiece
  exact (h name hname).slash

theorem Named.zero_render : 0 ∉ Bytes.ofText p.render := by
  rw [ofText_render]
  intro hzero
  rcases Bytes.mem_intercalate hzero with hslash | ⟨piece, hpiece, hzero⟩
  · exact absurd hslash (by decide)
  · obtain ⟨name, hname, rfl⟩ := List.mem_map.mp hpiece
    exact (h name hname).zero hzero

/-- The shown path does not end in a slash of its own. -/
theorem Named.getLast?_render (hne : p.segments ≠ []) :
    (Bytes.ofText p.render).getLast? ≠ some Path.slash := by
  have hpieces : p.segments.map Bytes.ofText ≠ [] := by simpa using hne
  rw [ofText_render, Bytes.getLast?_intercalate hpieces]
  · intro hlast
    obtain ⟨name, hname, heq⟩ := List.mem_map.mp (List.getLast_mem hpieces)
    rw [← heq] at hlast
    exact (h name hname).slash (List.mem_of_getLast? hlast)
  · intro piece hpiece
    obtain ⟨name, hname, rfl⟩ := List.mem_map.mp hpiece
    exact (h name hname).full

theorem Named.entryText (location : String) (hne : p.segments ≠ []) :
    entryText false location p = if p.isFile then p.render else p.render ++ "/" := by
  have hopen : p.render.toList.getLast? ≠ some '/' := by
    intro hlast
    obtain ⟨front, hfront⟩ := List.getLast?_eq_some_iff.mp hlast
    have hrender : p.render = String.ofList front ++ "/" := by
      apply String.toList_inj.mp
      simp [hfront]
    apply h.getLast?_render hne
    rw [hrender, Bytes.ofText_append]
    exact List.getLast?_concat
  simp [Fileset.entryText, hopen]

theorem Named.ofItem?_entryText (location : String) (hne : p.segments ≠ []) :
    ofItem? (Bytes.ofText (Fileset.entryText false location p)) = some p := by
  rw [h.entryText location hne]
  obtain ⟨segments, isFile⟩ := p
  cases isFile with
  | true =>
    rw [if_pos rfl, ofItem?, if_neg (h.getLast?_render hne), h.splitOn_render hne, mapM_text?]
    rfl
  | false =>
    have hslash : Bytes.ofText "/" = [Path.slash] := by decide
    rw [if_neg (by simp), Bytes.ofText_append, hslash, ofItem?, if_pos List.getLast?_concat,
      List.dropLast_concat, h.splitOn_render hne, mapM_text?]
    rfl

theorem Named.zero_entryText (location : String) (hne : p.segments ≠ []) :
    0 ∉ Bytes.ofText (Fileset.entryText false location p) := by
  rw [h.entryText location hne]
  cases p.isFile with
  | true => exact h.zero_render
  | false =>
    rw [if_neg (by simp), Bytes.ofText_append]
    intro hzero
    rcases List.mem_append.mp hzero with hzero | hzero
    · exact h.zero_render hzero
    · exact absurd hzero (by decide)

end Named
end RelPath

structure Request.Exact (r : Request) : Prop where
  nul : r.nul = true
  relative : r.absolute = false
  files : r.dirsOnly = false
  dirs : r.filesOnly = false

theorem Plan.select_legible {p : Plan} {t : Tree} {base : Bytes} {root : String} {s : Selection}
    (hlists : t.ListsOnce) (ht : t.Named) (h : p.select t base root = .ok s) :
    Walk.Legible s.notices := by
  unfold Plan.select at h
  cases hw : p.walker with
  | error e => simp [hw, bind, Except.bind] at h
  | ok w =>
    simp only [hw, bind, Except.bind] at h
    split at h
    · rename_i out summary hrun
      cases h
      have hknown : ∀ now, Walk.observer.Reaches t now →
          (Walk.observer.tree now).ListsOnce ∧ (Walk.observer.tree now).Named := by
        intro now hnow
        rw [Walk.observer_quiet.tree_eq hnow]
        exact ⟨hlists, ht⟩
      have hcalls : Walk.Legible (Walk.Recorded.calls (w.walk Walk.observer (Walk.limitFor t)
          (Path.join base (Bytes.ofText root)) t)) :=
        Walk.walk_legible hknown w.rules w.options (Walk.limitFor t) _
      rwa [Walk.Recorded.calls_eq_notices hrun] at hcalls
    · cases h

namespace Selection

variable {s : Selection} {r : Request} (h : Walk.Legible s.notices) (hr : r.Exact)

include hr in
theorem items_eq :
    s.items r = s.notices.map fun n => entryText false n.location.display n.path := by
  have hall : ∀ n ∈ s.notices, isShown r n = true := by
    intro n _
    simp [isShown, hr.files, hr.dirs]
  rw [items, List.filter_eq_self.mpr hall, hr.relative]

include h hr

theorem map_items :
    (s.items r).map (fun item => RelPath.ofItem? (Bytes.ofText item)) =
      s.notices.map fun n => some n.path := by
  rw [items_eq hr, List.map_map]
  refine List.map_congr_left fun n hn => ?_
  exact (h.named n hn).ofItem?_entryText n.location.display (h.below n hn)

/-- What is shown of different entries differs. -/
theorem items_nodup : (s.items r).Nodup := by
  have hpaths : (s.notices.map fun n => some n.path).Nodup := by
    have honce := h.once
    rw [← Function.comp_def RelPath.segments, ← List.map_map] at honce
    rw [← Function.comp_def some, ← List.map_map]
    exact honce.of_map.map (Option.some_injective _)
  rw [← map_items h hr] at hpaths
  exact hpaths.of_map

theorem ofItems?_text :
    RelPath.ofItems? (Bytes.ofText (s.text r)) = some (s.notices.map fun n => n.path) := by
  have hbytes : Bytes.ofText (s.text r) = (((s.items r).map Bytes.ofText).map (· ++ [0])).flatten := by
    have hend : Bytes.ofText "\x00" = [0] := by decide
    rw [text, terminator, if_pos hr.nul, Bytes.ofText_join, List.map_map, List.map_map]
    simp [Function.comp_def, Bytes.ofText_append, hend]
  have hzero : ∀ piece ∈ (s.items r).map Bytes.ofText, 0 ∉ piece := by
    intro piece hpiece
    obtain ⟨item, hitem, rfl⟩ := List.mem_map.mp hpiece
    rw [items_eq hr] at hitem
    obtain ⟨n, hn, rfl⟩ := List.mem_map.mp hitem
    exact (h.named n hn).zero_entryText n.location.display (h.below n hn)
  rw [RelPath.ofItems?, hbytes, Bytes.splitOn_ended hzero]
  apply mapM_eq_some_of_map
  rw [List.map_map, List.map_map]
  exact map_items h hr

end Selection

namespace Command

theorem foldl_append_out {outputs : List Output} (h : ∀ o ∈ outputs, o.out = "") (before : Output) :
    (outputs.foldl .append before).out = before.out := by
  induction outputs generalizing before with
  | nil => rfl
  | cons o outputs ih =>
    obtain ⟨ho, houtputs⟩ := List.forall_mem_cons.mp h
    rw [List.foldl_cons, ih houtputs]
    simp [Output.append, ho]

/-- What is said of a selection besides its items is no result. -/
theorem showSelection_out (v : Voice) (r : Request) {s : Selection} (hfound : s.summary.rootFound = true) :
    (showSelection v r s).out = s.text r := by
  have hdetail : (v.detail (Selection.summaryLine s.root s.summary)).out = "" := by
    unfold Voice.detail
    split <;> rfl
  have hskipped : ∀ o ∈ s.summary.unreadable.map fun dir =>
      v.warning s!"skipped unreadable directory {dir.display}", o.out = "" := by
    intro o ho
    obtain ⟨dir, -, rfl⟩ := List.mem_map.mp ho
    rfl
  rw [showSelection, if_pos hfound]
  simp only [Output.append, hdetail, foldl_append_out hskipped, String.append_empty]
  rfl

section Single

variable {v : Voice} {home : Option String} {base : Bytes} {settings : Settings} {t : Tree}
  {root place : String} {r : Request} {plan : Plan} {s : Selection}

theorem runSelect_found (hplan : Plan.resolve settings r = .ok plan)
    (hhome : Home.expand home root = .ok place) (hselect : plan.select t base place = .ok s) :
    runSelect v home base settings t [root] r = (showSelection v r s, none) := by
  simp [runSelect, hplan, hhome, hselect, showAll, Output.append_empty, bind, pure, Except.bind,
    Except.pure]

/-- What is shown of a root with zero bytes behind the items can be read back: it gives the entries that
were reported, in their order, and no two of them are shown alike. -/
theorem runSelect_decodes (hr : r.Exact) (hplan : Plan.resolve settings r = .ok plan)
    (hhome : Home.expand home root = .ok place) (hselect : plan.select t base place = .ok s)
    (hfound : s.summary.rootFound = true) (hlists : t.ListsOnce) (ht : t.Named) :
    RelPath.ofItems? (Bytes.ofText (runSelect v home base settings t [root] r).1.out) =
      some (s.notices.map fun n => n.path) ∧ (s.items r).Nodup := by
  have hlegible := Plan.select_legible hlists ht hselect
  rw [runSelect_found hplan hhome hselect, showSelection_out v r hfound]
  exact ⟨Selection.ofItems?_text hlegible hr, Selection.items_nodup hlegible hr⟩

end Single

def spelled : Tree :=
  ⟨[⟨[], [0x62, 0x0a, 0x63], .directory⟩, ⟨[], [0x2e, 0x5c, 0x61], .file []⟩,
    ⟨[[0x62, 0x0a, 0x63]], [0x20], .file []⟩]⟩

def exactly : Request := { nul := true, noDefaultExcludes := true }

theorem runSelect_decodes_spelled :
    exactly.Exact ∧ spelled.ListsOnce ∧ spelled.Named ∧
    (runSelect (atTop.voice .normal) none [Path.slash] {} spelled ["."] exactly).1.out =
      ".\\a\x00b\nc/\x00b\nc/ \x00" ∧
    RelPath.ofItems? (Bytes.ofText
      (runSelect (atTop.voice .normal) none [Path.slash] {} spelled ["."] exactly).1.out) =
      some [⟨[".\\a"], true⟩, ⟨["b\nc"], false⟩, ⟨["b\nc", " "], true⟩] := by
  have hr : exactly.Exact := ⟨rfl, rfl, rfl, rfl⟩
  have hlists : spelled.ListsOnce := Tree.WellFormed.listsOnce ⟨by decide, by decide⟩
  have ht : spelled.Named := by
    intro e he
    simp only [spelled, List.mem_cons, List.not_mem_nil, or_false] at he
    rcases he with rfl | rfl | rfl <;> exact ⟨by decide, by decide, by decide⟩
  have hplan : Plan.resolve {} exactly = .ok ⟨[], [], true, {}⟩ := rfl
  have hhome : Home.expand none "." = .ok "." := rfl
  have hselect : Plan.select ⟨[], [], true, {}⟩ spelled [Path.slash] "." = .ok {
      root := "."
      notices := [⟨[[0x2e, 0x5c, 0x61]], ⟨[".\\a"], true⟩⟩, ⟨[[0x62, 0x0a, 0x63]], ⟨["b\nc"], false⟩⟩,
        ⟨[[0x62, 0x0a, 0x63], [0x20]], ⟨["b\nc", " "], true⟩⟩]
      summary := { rootFound := true, files := 2, dirs := 1 } } := by cbv
  obtain ⟨hdecodes, -⟩ := runSelect_decodes hr hplan hhome hselect rfl hlists ht
  exact ⟨hr, hlists, ht, by cbv, hdecodes⟩

end Command
end Fileset
