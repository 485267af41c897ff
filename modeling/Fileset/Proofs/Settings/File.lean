import Fileset.Proofs.Settings.Written
import Fileset.Proofs.Tree.Stored
import Fileset.Settings.File

namespace Fileset.Settings

variable {machine : Machine} {s : Settings} {path content : Bytes} {t : Tree}

/-- The bytes of a saved file hold the settings, be the file large or not. -/
theorem Valid.ofBytes_write (h : s.Valid) (path : Bytes) (machine : Machine) :
    ofBytes path (Bytes.ofText s.write) machine = .ok s := by
  rw [ofBytes, Bytes.text?_ofText]
  simp only [h.parse_write machine]
  rfl

theorem save_stores (s : Settings) (hw : t.Writable path) :
    ∃ t', s.save path t = .ok t' ∧ t'.Stores path (Bytes.ofText s.write) := by
  obtain ⟨t₁, hmake, hfits⟩ := hw
  obtain ⟨t', hwrite, hstores⟩ :=
    hfits.write (Tree.isDirectoryAt_makeDirectory hmake) (Bytes.ofText s.write)
  refine ⟨t', ?_, hstores⟩
  rw [save, hmake]
  simp only [Except.mapError, bind, Except.bind, hwrite]

theorem load_stores (h : t.Stores path content) :
    load path t machine = (ofBytes path content machine).map (·, t) := by
  rw [load, if_pos h.existsAt, read, h.read]

/-- Settings that are reachable are saved to every writable path, and loaded from it unchanged, also on
another machine. -/
theorem save_load (hs : s.Reachable) (hw : t.Writable path) :
    ∃ t', s.save path t = .ok t' ∧ ∀ machine, load path t' machine = .ok (s, t') := by
  obtain ⟨t', hsave, hstores⟩ := save_stores s hw
  refine ⟨t', hsave, fun machine => ?_⟩
  rw [load_stores hstores, hs.valid.ofBytes_write]
  rfl

def quoted : Settings :=
  [Change.set "sets.a \"b\"\n.includes" "it's\t\"c\\d\", e", .set "sets..excludes" "",
    .set "performance.parallel_threads" "18446744073709551615"].foldl (Change.leaves .silent) (initial .silent)

theorem save_load_quoted : quoted.Reachable ∧
    quoted.sets.entries = [("", {}), ("a \"b\"\n", { includes := ["it's\t\"c\\d\"", "e"] })] ∧
    Tree.empty.Writable [Path.slash, 0x63, Path.slash, 0x66] ∧
    ∃ t', quoted.save [Path.slash, 0x63, Path.slash, 0x66] .empty = .ok t' ∧
      ∀ machine, load [Path.slash, 0x63, Path.slash, 0x66] t' machine = .ok (quoted, t') := by
  have hs : quoted.Reachable := (Reachable.initial .silent).changes .silent _
  exact ⟨hs, rfl, Tree.writable_empty, save_load hs Tree.writable_empty⟩

end Fileset.Settings
