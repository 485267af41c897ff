import Fileset.Proofs.Settings.Valid
import Fileset.Selection.Plan

namespace Fileset

namespace Settings

theorem leftovers_accepted : ∀ raw ∈ leftovers, Pattern.Accepted raw := by
  have hall : leftovers.all (fun raw => (Pattern.normalize raw).isOk) = true := by decide
  intro raw hraw
  have hok := List.all_eq_true.mp hall raw hraw
  cases hn : Pattern.normalize raw with
  | error e => simp [hn, Except.isOk, Except.toBool] at hok
  | ok segments => exact ⟨segments, hn⟩

theorem implicitExcludes_accepted (s : Settings) :
    ∀ raw ∈ s.implicitExcludes, Pattern.Accepted raw := by
  unfold implicitExcludes
  split
  · exact leftovers_accepted
  · exact nofun

end Settings

structure Plan.Accepted (p : Plan) : Prop where
  includes : ∀ raw ∈ p.includes, Pattern.Accepted raw
  excludes : ∀ raw ∈ p.excludes, Pattern.Accepted raw

namespace Plan

variable {p : Plan}

theorem Accepted.walker (h : p.Accepted) : ∃ w, p.walker = .ok w := by
  obtain ⟨is, his⟩ := (Matcher.compileAll_accepted true p.caseSensitive).mpr h.includes
  obtain ⟨es, hes⟩ := (Matcher.compileAll_accepted false p.caseSensitive).mpr h.excludes
  refine ⟨⟨p.caseSensitive, ⟨is, es⟩, p.options⟩, ?_⟩
  simp only [Plan.walker, Walk.Walker.setIncludes, Walk.Walker.setExcludes, his, hes, bind, pure,
    Except.bind, Except.pure, Except.mapError]

/-- A plan whose patterns compile fails on a root only if the walk itself stops early. -/
theorem Accepted.select (h : p.Accepted) (t : Tree) (base : Bytes) (root : String) :
    (∃ found, p.select t base root = .ok found) ∨
      ∃ stop, p.select t base root = .error (.stopped root stop) := by
  obtain ⟨w, hw⟩ := h.walker
  simp only [Plan.select, hw, bind, pure, Except.bind, Except.pure]
  split
  · exact .inl ⟨_, rfl⟩
  · exact .inr ⟨_, rfl⟩

variable {s : Settings} (hs : s.Valid) {r : Request}
include hs

theorem startSet_accepted (hset : ∀ name, r.set = some name → (s.patternSet? name).isSome = true) :
    ∃ set, startSet s r.set = .ok set ∧ set.Accepted := by
  cases hname : r.set with
  | none => exact ⟨{}, rfl, PatternSet.accepted_empty⟩
  | some name =>
    obtain ⟨set, hget⟩ := Option.isSome_iff_exists.mp (hset name hname)
    exact ⟨set, by simp only [startSet, hget], hs.patternSet? hget⟩

theorem resolve_accepted (hset : ∀ name, r.set = some name → (s.patternSet? name).isSome = true)
    (hi : ∀ raw ∈ r.includes, Pattern.Accepted raw) (he : ∀ raw ∈ r.excludes, Pattern.Accepted raw) :
    ∃ p, resolve s r = .ok p ∧ p.Accepted := by
  obtain ⟨set, hstart, haccepted⟩ := startSet_accepted hs hset
  obtain ⟨hincludes, hexcludes⟩ := PatternSet.accepted_iff.mp haccepted
  refine ⟨_, by simp only [resolve, hstart, bind, pure, Except.bind, Except.pure]; rfl, ?_, ?_⟩
  · exact List.forall_mem_append.mpr ⟨hincludes, hi⟩
  · refine List.forall_mem_append.mpr ⟨List.forall_mem_append.mpr ⟨hexcludes, he⟩, ?_⟩
    split
    · exact nofun
    · exact s.implicitExcludes_accepted

end Plan

/-- Whatever is done to settings, there stays a thread to walk with, and each of their patterns compiles
as an include and as an exclude, in either case. So a request for one of their sets, with patterns
that compile for some use, has a plan with a walker, and a walk of any root in any tree is never
refused for a pattern: it fails only by stopping early. -/
theorem Settings.reachable_plans {s : Settings} (h : s.Reachable) :
    1 ≤ s.threads ∧
    (∀ name set, s.patternSet? name = some set → ∀ raw, raw ∈ set.includes ∨ raw ∈ set.excludes →
      ∀ forInclude caseSensitive, ∃ m, Matcher.compile forInclude caseSensitive raw = .ok m) ∧
    ∀ r : Request,
      (∀ raw, raw ∈ r.includes ∨ raw ∈ r.excludes →
        ∃ forInclude caseSensitive m, Matcher.compile forInclude caseSensitive raw = .ok m) →
      (∀ name, r.set = some name → (s.patternSet? name).isSome = true) →
      ∃ p, Plan.resolve s r = .ok p ∧ (∃ w, p.walker = .ok w) ∧
        ∀ t base root, (∃ found, p.select t base root = .ok found) ∨
          ∃ stop, p.select t base root = .error (.stopped root stop) := by
  have hvalid := h.valid
  refine ⟨hvalid.threads_pos, fun name set hset raw hraw forInclude caseSensitive => ?_,
    fun r hr hset => ?_⟩
  · obtain ⟨hi, he⟩ := PatternSet.accepted_iff.mp (hvalid.patternSet? hset)
    exact (Matcher.accepted_iff forInclude caseSensitive).mp (hraw.elim (hi raw) (he raw))
  · have haccepted {raw : String} (hraw : raw ∈ r.includes ∨ raw ∈ r.excludes) :
        Pattern.Accepted raw := by
      obtain ⟨forInclude, caseSensitive, hm⟩ := hr raw hraw
      exact (Matcher.accepted_iff forInclude caseSensitive).mpr hm
    obtain ⟨p, hp, hall⟩ := Plan.resolve_accepted hvalid hset (fun _ hraw => haccepted (.inl hraw))
      (fun _ hraw => haccepted (.inr hraw))
    exact ⟨p, hp, hall.walker, hall.select⟩

def Settings.edited : Settings :=
  [Settings.Change.set "sets.java.includes" " src/**/*.java, test/",
    .set "sets.java.excludes" "a//b", .set "walk.case_sensitive" "false"].foldl (Change.leaves .silent) (initial .silent)

def Request.forJava : Request := { includes := ["*.md"], excludes := ["build/"], set := some "java" }

theorem Settings.reachable_plans_java :
    edited.Reachable ∧ edited.patternSet? "java" = some ⟨["src/**/*.java", "test/"], []⟩ ∧
    (∀ raw, raw ∈ Request.forJava.includes ∨ raw ∈ Request.forJava.excludes →
      ∃ forInclude caseSensitive m, Matcher.compile forInclude caseSensitive raw = .ok m) ∧
    (∀ name, Request.forJava.set = some name → (edited.patternSet? name).isSome = true) ∧
    ∃ p, Plan.resolve edited Request.forJava = .ok p ∧ (∃ w, p.walker = .ok w) ∧
      ∀ t base root, (∃ found, p.select t base root = .ok found) ∨
        ∃ stop, p.select t base root = .error (.stopped root stop) := by
  have h : edited.Reachable := (Reachable.initial .silent).changes .silent _
  have hjava : edited.patternSet? "java" = some ⟨["src/**/*.java", "test/"], []⟩ := rfl
  have hr : ∀ raw, raw ∈ Request.forJava.includes ∨ raw ∈ Request.forJava.excludes →
      ∃ forInclude caseSensitive m, Matcher.compile forInclude caseSensitive raw = .ok m := by
    rintro raw (hraw | hraw)
    · obtain rfl := List.mem_singleton.mp hraw
      exact ⟨true, true, _, rfl⟩
    · obtain rfl := List.mem_singleton.mp hraw
      exact ⟨false, true, _, rfl⟩
  have hset : ∀ name, Request.forJava.set = some name → (edited.patternSet? name).isSome = true := by
    rintro name hname
    obtain rfl : "java" = name := Option.some.inj hname
    rw [hjava]
    rfl
  exact ⟨h, hjava, hr, hset, (reachable_plans h).2.2 Request.forJava hr hset⟩

end Fileset
