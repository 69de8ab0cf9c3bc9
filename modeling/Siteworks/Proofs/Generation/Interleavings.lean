import Mathlib
import Siteworks.Proofs.Generation.Independence

/-!
# Runs side by side

Requests come in and runs end in any order. A request is refused for its slug exactly if a run for the
slug is under way; all others are answered, and leave the files, as if their runs had been made one
after the other in the order of their starts.

What carries the proof is that the files, once all runs that are under way have packed their trees in
the order of their starts, are those that the runs would have left one after the other.
-/

namespace Siteworks

open Scaffold (Apart)

/-- What is at a number in a list has something before it and a rest behind it. -/
private theorem exists_append_of_getElem? {α : Type} {xs : List α} {number : Nat} {x : α}
    (h : xs[number]? = some x) :
    ∃ before rest, xs = before ++ x :: rest ∧ ∀ y, xs.set number y = before ++ y :: rest := by
  obtain ⟨hlt, rfl⟩ := List.getElem?_eq_some_iff.mp h
  refine ⟨xs.take number, xs.drop (number + 1), ?_, fun y => ?_⟩
  · rw [List.getElem_cons_drop, List.take_append_drop]
  · rw [List.set_eq_take_append_cons_drop, if_pos hlt]

/-- How far a request has come. -/
inductive Progress where
  /-- Its run has built the tree, and has still to pack it. -/
  | running (run : StartedRun)
  /-- It has been answered. -/
  | answered (answer : Except GenerationError GeneratedSite)
  deriving DecidableEq

/-- How far a request has come when its run has started. -/
def Progress.ofStart : Except GenerationError StartedRun → Progress
  | .error e => .answered (.error e)
  | .ok run => .running run

/-- A request for a site. -/
structure Request where
  /-- The spec of the site. -/
  spec : Spec
  /-- How far the request has come. -/
  progress : Progress

/-- A workspace and the requests for sites in it, in the order of their starts. -/
structure Service where
  /-- The workspace. -/
  workspace : Workspace
  /-- The requests. -/
  requests : List Request

/-- What happens to a service. -/
inductive Event where
  /-- A request comes in, and its run starts. -/
  | start (spec : Spec)
  /-- The run of the request with a number ends. -/
  | finish (number : Nat)

/-- The spec of the request that comes in. -/
def Event.spec? : Event → Option Spec
  | .start spec => some spec
  | .finish _ => none

namespace Request

/-- The request has a run under way, for a slug. -/
def InFlight (request : Request) (slug : String) : Prop :=
  (∃ run, request.progress = .running run) ∧ request.spec.siteSlug = .ok slug

/-- The requests have no runs under way for one slug. -/
def Clear (request other : Request) : Prop :=
  ∀ slug, ¬ (request.InFlight slug ∧ other.InFlight slug)

/-- This goes both ways. -/
theorem Clear.symm {request other : Request} (h : request.Clear other) : other.Clear request :=
  fun slug hboth => h slug hboth.symm

/-- A request that has been answered has no run under way. -/
theorem not_inFlight {spec : Spec} {answer : Except GenerationError GeneratedSite} (slug : String) :
    ¬ (⟨spec, .answered answer⟩ : Request).InFlight slug := by
  rintro ⟨⟨run, hprogress⟩, -⟩
  cases hprogress

/-- The request has been refused because a slug was in use. -/
def Busy (request : Request) (slug : String) : Prop :=
  request.progress = .answered (.error (.slugBusy slug))

/-- The request has been refused because its slug was in use. -/
def isBusy (request : Request) : Bool :=
  match request.progress with
  | .answered (.error (.slugBusy _)) => true
  | _ => false

/-- A request is busy with some slug or none. -/
theorem isBusy_eq_true_iff {request : Request} :
    request.isBusy = true ↔ ∃ slug, request.Busy slug := by
  unfold isBusy Busy
  constructor
  · intro h
    split at h
    next slug hprogress => exact ⟨slug, hprogress⟩
    · cases h
  · rintro ⟨slug, hprogress⟩
    rw [hprogress]

end Request

namespace Service

/-- A service over some files, without requests. -/
def new (files : FileSystem) : Service := ⟨⟨files, .empty⟩, []⟩

/-- The service after an event. The end of a run that is not under way is none. -/
def after (generator : Generator) (service : Service) : Event → Service
  | .start spec =>
    ⟨(generator.start spec service.workspace).2,
      service.requests ++ [⟨spec, .ofStart (generator.start spec service.workspace).1⟩]⟩
  | .finish number =>
    match service.requests[number]? with
    | some ⟨spec, .running run⟩ =>
      ⟨(run.finish service.workspace).2,
        service.requests.set number ⟨spec, .answered (run.finish service.workspace).1⟩⟩
    | _ => service

/-- The service after events. -/
def run (generator : Generator) (service : Service) (events : List Event) : Service :=
  events.foldl (after generator) service

/-- The requests that were not refused because their slug was in use. -/
def served (service : Service) : List Request :=
  service.requests.filter fun request => !request.isBusy

end Service

namespace Generator

variable {generator : Generator} {base root : Place} {files fs : FileSystem} {service : Service}

/-- Pack the tree of a request whose run is under way. -/
def settle (generator : Generator) (request : Request) (fs : FileSystem) :
    Except GenerationError GeneratedSite × FileSystem :=
  match request.progress with
  | .running run => generator.pack run.slug fs
  | .answered answer => (answer, fs)

/-- A step for a slug commutes with packing the trees of requests whose runs are for other slugs. -/
theorem Keeps.commute_settle {slug : String} {α : Type} {step : FileSystem → α × FileSystem}
    (hstep : Keeps generator base root slug step) (hslug : Slug.isUrlSafe slug = true)
    {requests : List Request}
    (hothers : ∀ request ∈ requests, ∀ run, request.progress = .running run →
      Slug.isUrlSafe run.slug = true ∧ slug ≠ run.slug)
    (hready : ∀ request ∈ requests, ∀ run, request.progress = .running run →
      Ready generator base root fs) :
    CommuteAt step (inTurn generator.settle requests) fs := by
  have hstable : ∀ request ∈ requests, ∀ s,
      (∀ request ∈ requests, ∀ run, request.progress = .running run →
        Ready generator base root s) →
      (∀ other ∈ requests, ∀ run, other.progress = .running run →
        Ready generator base root (generator.settle request s).2) ∧
      CommuteAt step (generator.settle request) s := by
    intro request hrequest s hs
    cases hprogress : request.progress with
    | answered answer =>
      have hsettle : generator.settle request = fun s => (answer, s) := by
        funext s
        rw [settle, hprogress]
      rw [hsettle]
      exact ⟨hs, (CommuteAt.const answer step s).symm⟩
    | running run =>
      have hsettle : generator.settle request = generator.pack run.slug := by
        funext s
        rw [settle, hprogress]
      obtain ⟨hsafe, hne⟩ := hothers request hrequest run hprogress
      have hpack : Keeps generator base root run.slug (generator.pack run.slug) :=
        keeps_pack generator (Slug.isName_of_isUrlSafe hsafe)
      have hnow := hs request hrequest run hprogress
      rw [hsettle]
      exact ⟨fun _ _ _ _ => hpack.ready hnow, hstep.commute hpack hslug hsafe hne hnow⟩
  exact CommuteAt.inTurn hstable hready

/-- What is true of a service over some files at all times. -/
structure Serial (generator : Generator) (base root : Place) (files : FileSystem)
    (service : Service) : Prop where
  /-- The output and the scaffolds are apart. -/
  separate : Separate generator base root service.workspace.files
  /-- A run under way owns the slug of its accepted spec, and everything is ready for its end. -/
  underway : ∀ request ∈ service.requests, ∀ run, request.progress = .running run →
    (∃ slug, request.spec.accepted = .ok slug ∧ run = generator.runOf slug) ∧
      Ready generator base root service.workspace.files
  /-- The runs under way are for different slugs. -/
  distinct : service.requests.Pairwise Request.Clear
  /-- The slugs in use are those for which a run is under way. -/
  held : ∀ slug, slug ∈ service.workspace.slugs.held ↔
    ∃ request ∈ service.requests, request.InFlight slug
  /-- The served requests, once all trees have been packed in the order of the starts, are answered,
  and leave the files, as if they had run one after the other. -/
  serial : generator.generateEach (service.served.map Request.spec) ⟨files, .empty⟩ =
    ((inTurn generator.settle service.served service.workspace.files).1,
      ⟨(inTurn generator.settle service.served service.workspace.files).2, .empty⟩)

namespace Serial

/-- A step for a slug for which none of some runs is under way commutes with packing their trees. -/
theorem commute (h : Serial generator base root files service) {slug : String} {α : Type}
    {step : FileSystem → α × FileSystem} (hstep : Keeps generator base root slug step)
    (hslug : Slug.isUrlSafe slug = true) {requests : List Request}
    (hsub : ∀ request ∈ requests, request ∈ service.requests)
    (hfree : ∀ request ∈ requests, ¬ request.InFlight slug) :
    CommuteAt step (inTurn generator.settle requests) service.workspace.files := by
  refine hstep.commute_settle hslug (fun request hrequest run hrun => ?_)
    fun request hrequest run hrun => (h.underway request (hsub request hrequest) run hrun).2
  obtain ⟨⟨other, haccepted, rfl⟩, -⟩ := h.underway request (hsub request hrequest) run hrun
  have hother := (Spec.accepted_eq_ok_iff.mp haccepted).1
  refine ⟨Spec.isUrlSafe_of_siteSlug hother, ?_⟩
  rintro rfl
  exact hfree request hrequest ⟨⟨_, hrun⟩, hother⟩

/-- At the beginning there are no requests. -/
theorem new (h : Separate generator base root files) :
    Serial generator base root files (Service.new files) := by
  refine ⟨h, fun request hrequest => ?_, List.Pairwise.nil, fun slug => ?_, ?_⟩
  · cases hrequest
  · simp [Service.new, SlugTable.empty]
  · simp [Service.new, Service.served, generateEach, inTurn]

/-- A request that is answered at once changes nothing for the runs under way. -/
theorem concat_answered (h : Serial generator base root files service) {spec : Spec}
    {answer : Except GenerationError GeneratedSite} {left : FileSystem}
    (hseparate : Separate generator base root left)
    (hready : Ready generator base root service.workspace.files → Ready generator base root left)
    {requests : List Request}
    (hserved : (service.requests ++ [(⟨spec, .answered answer⟩ : Request)]).filter
      (fun request => !request.isBusy) = requests)
    (hserial : generator.generateEach (requests.map Request.spec) ⟨files, .empty⟩ =
      ((inTurn generator.settle requests left).1,
        ⟨(inTurn generator.settle requests left).2, .empty⟩)) :
    Serial generator base root files
      ⟨⟨left, service.workspace.slugs⟩, service.requests ++ [⟨spec, .answered answer⟩]⟩ := by
  subst hserved
  refine ⟨hseparate, ?_, ?_, fun slug => ?_, hserial⟩
  · intro other hother run hprogress
    rcases List.mem_append.mp hother with hold | hnew
    · obtain ⟨howned, hnow⟩ := h.underway other hold run hprogress
      exact ⟨howned, hready hnow⟩
    · rw [List.mem_singleton.mp hnew] at hprogress
      cases hprogress
  · refine List.pairwise_append.mpr ⟨h.distinct, List.pairwise_singleton _ _, ?_⟩
    rintro _ - other hother slug ⟨-, hflight⟩
    rw [List.mem_singleton.mp hother] at hflight
    exact Request.not_inFlight slug hflight
  · rw [h.held slug]
    simp [Request.not_inFlight]

/-- So does one that is refused for its spec, or whose tree cannot be built, if it is refused for the
same reason once the trees have been packed. -/
theorem concat_error (h : Serial generator base root files service) {spec : Spec}
    {e : GenerationError} {left : FileSystem} (hseparate : Separate generator base root left)
    (hready : Ready generator base root service.workspace.files → Ready generator base root left)
    (hne : ∀ slug, e ≠ .slugBusy slug)
    (hanswers : (inTurn generator.settle service.served left).1 =
      (inTurn generator.settle service.served service.workspace.files).1)
    (hrun : generator.generate spec
        ⟨(inTurn generator.settle service.served service.workspace.files).2, .empty⟩ =
      (.error e, ⟨(inTurn generator.settle service.served left).2, .empty⟩)) :
    Serial generator base root files
      ⟨⟨left, service.workspace.slugs⟩, service.requests ++ [⟨spec, .answered (.error e)⟩]⟩ := by
  have hbusy : (⟨spec, .answered (.error e)⟩ : Request).isBusy = false := by
    rw [← Bool.not_eq_true, Request.isBusy_eq_true_iff]
    rintro ⟨slug, hslug⟩
    exact hne slug (Except.error.inj (Progress.answered.inj hslug))
  have hserved : (service.requests ++ [(⟨spec, .answered (.error e)⟩ : Request)]).filter
      (fun request => !request.isBusy) = service.served ++ [⟨spec, .answered (.error e)⟩] := by
    simp [Service.served, hbusy]
  refine h.concat_answered hseparate hready hserved ?_
  have hserial := h.serial
  simp only [generateEach] at hserial ⊢
  rw [List.map_append, inTurn_append, hserial, inTurn_append]
  simp only [List.map_cons, List.map_nil, inTurn, hrun, hanswers, settle]

/-- No run is under way for a slug that is free. -/
theorem free (h : Serial generator base root files service) {slug : String}
    (hfree : slug ∉ service.workspace.slugs.held) :
    ∀ request ∈ service.requests, ¬ request.InFlight slug :=
  fun request hrequest hflight => hfree ((h.held slug).mpr ⟨request, hrequest, hflight⟩)

/-- To build the tree for a free slug commutes with packing the trees of the served requests. -/
theorem commute_buildTree (h : Serial generator base root files service) {spec : Spec}
    {slug : String} (haccepted : spec.accepted = .ok slug)
    (hfree : slug ∉ service.workspace.slugs.held) :
    CommuteAt (generator.buildTree spec slug) (inTurn generator.settle service.served)
      service.workspace.files := by
  have hsafe := Spec.isUrlSafe_of_siteSlug (Spec.accepted_eq_ok_iff.mp haccepted).1
  have hsub : ∀ request ∈ service.served, request ∈ service.requests :=
    fun request hrequest => (List.mem_filter.mp hrequest).1
  exact h.commute (keeps_buildTree generator spec (Slug.isName_of_isUrlSafe hsafe)) hsafe hsub
    fun request hrequest => h.free hfree request (hsub request hrequest)

/-- A request whose tree is built has its run under way. -/
theorem concat_running (h : Serial generator base root files service) {spec : Spec} {slug : String}
    {built : FileSystem} (haccepted : spec.accepted = .ok slug)
    (hfree : slug ∉ service.workspace.slugs.held)
    (hbuild : generator.buildTree spec slug service.workspace.files = (.ok (), built)) :
    Serial generator base root files
      ⟨⟨built, ⟨slug :: service.workspace.slugs.held⟩⟩,
        service.requests ++ [⟨spec, .running (generator.runOf slug)⟩]⟩ := by
  have hslug := (Spec.accepted_eq_ok_iff.mp haccepted).1
  have hname := Slug.isName_of_isUrlSafe (Spec.isUrlSafe_of_siteSlug hslug)
  have hready := h.separate.ready_of_buildTree hname hbuild
  obtain ⟨dirs, changed, hedits⟩ := h.separate.edits_buildTree spec hname
  rw [hbuild] at hedits
  have hflight : ∀ other, (⟨spec, .running (generator.runOf slug)⟩ : Request).InFlight other ↔
      other = slug := by
    intro other
    constructor
    · rintro ⟨-, hother⟩
      exact Except.ok.inj (hother.symm.trans hslug)
    · rintro rfl
      exact ⟨⟨_, rfl⟩, hslug⟩
  have hserved : (⟨⟨built, ⟨slug :: service.workspace.slugs.held⟩⟩,
      service.requests ++ [⟨spec, .running (generator.runOf slug)⟩]⟩ : Service).served =
        service.served ++ [⟨spec, .running (generator.runOf slug)⟩] := by
    simp [Service.served, Request.isBusy]
  refine ⟨h.separate.edits hedits, ?_, ?_, fun other => ?_, ?_⟩
  · intro request hrequest run hprogress
    refine ⟨?_, hready⟩
    rcases List.mem_append.mp hrequest with hold | hnew
    · exact (h.underway request hold run hprogress).1
    · rw [List.mem_singleton.mp hnew] at hprogress ⊢
      exact ⟨slug, haccepted, (Progress.running.inj hprogress).symm⟩
  · refine List.pairwise_append.mpr ⟨h.distinct, List.pairwise_singleton _ _, ?_⟩
    rintro request hrequest other hother name ⟨hfirst, hsecond⟩
    rw [List.mem_singleton.mp hother, hflight] at hsecond
    exact h.free hfree request hrequest (hsecond ▸ hfirst)
  · rw [List.mem_cons, h.held other, or_comm, ← hflight other]
    simp [or_and_right, exists_or]
  · have hcommute := h.commute_buildTree haccepted hfree
    have hserial := h.serial
    have hanswers := hcommute.second
    have hanswer := hcommute.first
    have hleft := hcommute.left
    rw [hbuild] at hanswers hanswer hleft
    have hproduce : generator.produce spec slug
        (inTurn generator.settle service.served service.workspace.files).2 =
          generator.pack slug (inTurn generator.settle service.served built).2 := by
      rw [produce, ← Prod.eta (generator.buildTree spec slug _), hanswer, hleft]
    simp only [generateEach] at hserial ⊢
    rw [hserved, List.map_append, inTurn_append, hserial, inTurn_append]
    simp only [List.map_cons, List.map_nil, inTurn, settle, hanswers]
    rw [generate_of_free haccepted (by simp [SlugTable.empty]), hproduce]
    rfl

/-- When a request comes in, everything stays as it should be. -/
theorem start (h : Serial generator base root files service) (spec : Spec) :
    Serial generator base root files (service.after generator (.start spec)) := by
  rw [Service.after]
  cases haccepted : spec.accepted with
  | error e =>
    rw [start_of_refused haccepted]
    refine h.concat_error h.separate id (Spec.ne_slugBusy_of_accepted haccepted) rfl ?_
    rw [generate, start_of_refused haccepted]
  | ok slug =>
    by_cases hbusy : slug ∈ service.workspace.slugs.held
    · rw [start_of_busy haccepted hbusy]
      refine h.concat_answered h.separate id ?_ h.serial
      simp [Service.served, Request.isBusy]
    · rw [start_of_free haccepted hbusy]
      have hslug := (Spec.accepted_eq_ok_iff.mp haccepted).1
      have hname := Slug.isName_of_isUrlSafe (Spec.isUrlSafe_of_siteSlug hslug)
      have hcommute := h.commute_buildTree haccepted hbusy
      have hkept : Ready generator base root service.workspace.files →
          Ready generator base root (generator.buildTree spec slug service.workspace.files).2 :=
        (keeps_buildTree generator spec hname).ready
      obtain ⟨dirs, changed, hedits⟩ := h.separate.edits_buildTree spec hname
      have hanswers := hcommute.second
      have hanswer := hcommute.first
      have hleft := hcommute.left
      cases hbuild : generator.buildTree spec slug service.workspace.files with
      | mk result built =>
        rw [hbuild] at hedits hkept hanswers hanswer hleft
        cases result with
        | ok u => exact h.concat_running haccepted hbusy hbuild
        | error e =>
          refine h.concat_error (h.separate.edits hedits) hkept
            (ne_slugBusy_of_buildTree (Spec.accepted_eq_ok_iff.mp haccepted).2 hbuild) hanswers ?_
          rw [generate_of_free haccepted (by simp [SlugTable.empty]), produce,
            ← Prod.eta (generator.buildTree spec slug _), hanswer, hleft]

/-- A tree that is packed before those of earlier requests might as well be packed in its turn. -/
theorem inTurn_settle_answered {spec : Spec} {slug : String} {before : List Request}
    (h : CommuteAt (generator.pack slug) (inTurn generator.settle before) fs) (rest : List Request) :
    inTurn generator.settle (before ++ ⟨spec, .answered (generator.pack slug fs).1⟩ :: rest)
        (generator.pack slug fs).2 =
      inTurn generator.settle (before ++ ⟨spec, .running (generator.runOf slug)⟩ :: rest) fs := by
  rw [inTurn_append, inTurn_append]
  simp only [inTurn, settle, runOf, h.second, h.first, h.left]

/-- When a run ends, everything stays as it should be. -/
theorem finish_run (h : Serial generator base root files service) {before rest : List Request}
    {spec : Spec} {run : StartedRun}
    (hrequests : service.requests = before ++ ⟨spec, .running run⟩ :: rest) :
    Serial generator base root files ⟨(run.finish service.workspace).2,
      before ++ ⟨spec, .answered (run.finish service.workspace).1⟩ :: rest⟩ := by
  have hmem : ∀ {request other : Request},
      other ∈ before ++ request :: rest ↔ other = request ∨ other ∈ before ++ rest :=
    List.perm_middle.mem_iff.trans List.mem_cons
  have hclear : ∀ {request : Request}, (before ++ request :: rest).Pairwise Request.Clear ↔
      (∀ other ∈ before ++ rest, request.Clear other) ∧ (before ++ rest).Pairwise Request.Clear :=
    (List.perm_middle.pairwise_iff Request.Clear.symm).trans List.pairwise_cons
  obtain ⟨⟨slug, haccepted, rfl⟩, hready⟩ :=
    h.underway _ (hrequests ▸ hmem.mpr (Or.inl rfl)) run rfl
  have hslug := (Spec.accepted_eq_ok_iff.mp haccepted).1
  have hsafe := Spec.isUrlSafe_of_siteSlug hslug
  have hkeeps : Keeps generator base root slug (generator.pack slug) :=
    keeps_pack generator (Slug.isName_of_isUrlSafe hsafe)
  have hflight : (⟨spec, .running (generator.runOf slug)⟩ : Request).InFlight slug :=
    ⟨⟨_, rfl⟩, hslug⟩
  obtain ⟨hothers, hdistinct⟩ := hclear.mp (hrequests ▸ h.distinct)
  have hfree : ∀ request ∈ before ++ rest, ¬ request.InFlight slug :=
    fun request hrequest hsame => hothers request hrequest slug ⟨hflight, hsame⟩
  have hbusy : (⟨spec, .answered ((generator.runOf slug).finish service.workspace).1⟩ :
      Request).isBusy = false := by
    rw [← Bool.not_eq_true, Request.isBusy_eq_true_iff]
    rintro ⟨other, hother⟩
    exact ne_slugBusy_of_finish _ _ other (Progress.answered.inj hother)
  rw [finish_runOf] at hbusy ⊢
  refine ⟨h.separate.edits (hkeeps.edits _ hready), ?_, ?_, fun other => ?_, ?_⟩
  · intro request hrequest run hprogress
    rcases hmem.mp hrequest with rfl | hother
    · cases hprogress
    · exact ⟨(h.underway request (hrequests ▸ hmem.mpr (Or.inr hother)) run hprogress).1,
        hkeeps.ready hready⟩
  · exact hclear.mpr ⟨fun _ _ other hboth => Request.not_inFlight other hboth.1, hdistinct⟩
  · rw [SlugTable.mem_held_release, h.held other, hrequests]
    constructor
    · rintro ⟨⟨request, hrequest, hsame⟩, hne⟩
      rcases hmem.mp hrequest with rfl | hother
      · exact absurd (Except.ok.inj (hsame.2.symm.trans hslug)) hne
      · exact ⟨request, hmem.mpr (Or.inr hother), hsame⟩
    · rintro ⟨request, hrequest, hsame⟩
      rcases hmem.mp hrequest with rfl | hother
      · exact absurd hsame (Request.not_inFlight other)
      · exact ⟨⟨request, hmem.mpr (Or.inr hother), hsame⟩,
          fun heq => hfree request hother (heq ▸ hsame)⟩
  · have hcommute : CommuteAt (generator.pack slug)
        (inTurn generator.settle (before.filter fun request => !request.isBusy))
        service.workspace.files := by
      have hsub : ∀ request ∈ before.filter fun request => !request.isBusy,
          request ∈ before ++ rest :=
        fun request hrequest => List.mem_append_left _ (List.mem_filter.mp hrequest).1
      exact h.commute hkeeps hsafe
        (fun request hrequest => hrequests ▸ hmem.mpr (Or.inr (hsub request hrequest)))
        fun request hrequest => hfree request (hsub request hrequest)
    have hrunning : (⟨spec, .running (generator.runOf slug)⟩ : Request).isBusy = false := rfl
    have hserial := h.serial
    simp only [Service.served, hrequests, List.filter_append, List.filter_cons, hbusy, hrunning,
      Bool.not_false, if_true] at hserial ⊢
    rw [inTurn_settle_answered hcommute, ← hserial, List.map_append, List.map_append, List.map_cons,
      List.map_cons]

/-- When a run ends, everything stays as it should be. -/
theorem finish (h : Serial generator base root files service) (number : Nat) :
    Serial generator base root files (service.after generator (.finish number)) := by
  rw [Service.after]
  split
  next spec run hget =>
    obtain ⟨before, rest, hrequests, hset⟩ := exists_append_of_getElem? hget
    rw [hset]
    exact h.finish_run hrequests
  next => exact h

/-- Whatever happens, everything stays as it should be. -/
theorem run (h : Serial generator base root files service) (events : List Event) :
    Serial generator base root files (service.run generator events) := by
  induction events generalizing service with
  | nil => exact h
  | cons event events ih =>
    cases event with
    | start spec => exact ih (h.start spec)
    | finish number => exact ih (h.finish number)

end Serial

/-- A request that comes in is the last one. It is refused because its slug is in use exactly if its
spec is accepted and its slug is in use. -/
theorem requests_start (generator : Generator) (service : Service) (spec : Spec) :
    ∃ request, (service.after generator (.start spec)).requests = service.requests ++ [request] ∧
      request.spec = spec ∧ ∀ slug, request.Busy slug ↔ spec.siteSlug = .ok slug ∧
        spec.check = .ok () ∧ slug ∈ service.workspace.slugs.held := by
  refine ⟨_, rfl, rfl, fun slug => ?_⟩
  rw [← and_assoc, ← Spec.accepted_eq_ok_iff]
  have hbusy : ∀ {e : GenerationError}, (∀ other, e ≠ .slugBusy other) →
      ¬ (⟨spec, .ofStart (.error e)⟩ : Request).Busy slug := fun hne hsame =>
    hne slug (Except.error.inj (Progress.answered.inj hsame))
  cases haccepted : spec.accepted with
  | error e =>
    rw [start_of_refused haccepted]
    exact iff_of_false (hbusy (Spec.ne_slugBusy_of_accepted haccepted)) fun h => nomatch h.1
  | ok name =>
    by_cases hheld : name ∈ service.workspace.slugs.held
    · rw [start_of_busy haccepted hheld]
      constructor
      · intro hsame
        obtain rfl : name = slug :=
          GenerationError.slugBusy.inj (Except.error.inj (Progress.answered.inj hsame))
        exact ⟨rfl, hheld⟩
      · rintro ⟨hname, -⟩
        rw [Except.ok.inj hname]
        rfl
    · rw [start_of_free haccepted hheld]
      refine iff_of_false ?_ fun h => hheld (Except.ok.inj h.1 ▸ h.2)
      cases hbuild : generator.buildTree spec name service.workspace.files with
      | mk result built =>
        cases result with
        | error e =>
          exact hbusy (ne_slugBusy_of_buildTree (Spec.accepted_eq_ok_iff.mp haccepted).2 hbuild)
        | ok u => exact nofun

/-- Whatever happens, a request stays one that is, or is not, refused because its slug was in use. -/
theorem requests_after (generator : Generator) {number : Nat} {request : Request}
    (h : service.requests[number]? = some request) (event : Event) :
    ∃ request', (service.after generator event).requests[number]? = some request' ∧
      request'.spec = request.spec ∧ ∀ slug, request'.Busy slug ↔ request.Busy slug := by
  obtain ⟨hlt, hat⟩ := List.getElem?_eq_some_iff.mp h
  have hsame : ∃ request', service.requests[number]? = some request' ∧
      request'.spec = request.spec ∧ ∀ slug, request'.Busy slug ↔ request.Busy slug :=
    ⟨request, h, rfl, fun _ => Iff.rfl⟩
  cases event with
  | start spec =>
    rw [Service.after, List.getElem?_append_left hlt]
    exact hsame
  | finish other =>
    rw [Service.after]
    split
    next spec run hget =>
      by_cases heq : other = number
      · subst heq
        obtain rfl : request = ⟨spec, .running run⟩ := Option.some.inj (h.symm.trans hget)
        refine ⟨⟨spec, .answered (run.finish service.workspace).1⟩, ?_, rfl, fun slug => ?_⟩
        · simp [hlt]
        · refine iff_of_false (fun hbusy => ?_) nofun
          exact ne_slugBusy_of_finish _ _ slug (Progress.answered.inj hbusy)
      · rw [List.getElem?_set_ne heq]
        exact hsame
    next => exact hsame

/-- The same after any number of events. -/
theorem requests_run (generator : Generator) {number : Nat} {request : Request}
    (h : service.requests[number]? = some request) (events : List Event) :
    ∃ request', (service.run generator events).requests[number]? = some request' ∧
      request'.spec = request.spec ∧ ∀ slug, request'.Busy slug ↔ request.Busy slug := by
  induction events generalizing service request with
  | nil => exact ⟨request, h, rfl, fun _ => Iff.rfl⟩
  | cons event events ih =>
    obtain ⟨middle, hmiddle, hspec, hbusy⟩ := requests_after generator h event
    obtain ⟨last, hlast, hspec', hbusy'⟩ := ih hmiddle
    exact ⟨last, hlast, hspec'.trans hspec, fun slug => (hbusy' slug).trans (hbusy slug)⟩

/-- The requests are those that came in, in the order of their starts. -/
theorem specs_run (generator : Generator) (service : Service) (events : List Event) :
    (service.run generator events).requests.map Request.spec =
      service.requests.map Request.spec ++ events.filterMap Event.spec? := by
  induction events generalizing service with
  | nil => simp [Service.run]
  | cons event events ih =>
    refine (ih (service.after generator event)).trans ?_
    cases event with
    | start spec => simp [Service.after, Event.spec?]
    | finish number =>
      rw [Service.after]
      split
      next spec run hget =>
        obtain ⟨before, rest, hrequests, hset⟩ := exists_append_of_getElem? hget
        rw [hset, hrequests]
        simp [List.filterMap_cons, Event.spec?]
      next => simp [List.filterMap_cons, Event.spec?]

section All

/-- The requests for some specs whose runs have started. -/
def started (specs : List Spec) (runs : List (Except GenerationError StartedRun)) : List Request :=
  List.zipWith (fun spec run => ⟨spec, .ofStart run⟩) specs runs

/-- The requests for some specs that have been answered. -/
def answered (specs : List Spec) (answers : List (Except GenerationError GeneratedSite)) :
    List Request :=
  List.zipWith (fun spec answer => ⟨spec, .answered answer⟩) specs answers

/-- Requests that come in one after the other start their runs one after the other. -/
theorem run_starts (generator : Generator) (service : Service) (specs : List Spec) :
    service.run generator (specs.map .start) =
      ⟨(generator.startAll specs service.workspace).2,
        service.requests ++ started specs (generator.startAll specs service.workspace).1⟩ := by
  induction specs generalizing service with
  | nil => simp [Service.run, startAll, started]
  | cons spec specs ih =>
    refine (ih (service.after generator (.start spec))).trans ?_
    simp [Service.after, startAll, started]

/-- Runs that are ended one after the other end as `finishAll` ends them. -/
theorem run_finishes (generator : Generator) (done : List Request) (workspace : Workspace)
    (specs : List Spec) (runs : List (Except GenerationError StartedRun))
    (hlength : specs.length = runs.length) :
    (⟨workspace, done ++ started specs runs⟩ : Service).run generator
        ((List.range' done.length runs.length).map .finish) =
      ⟨(finishAll runs workspace).2, done ++ answered specs (finishAll runs workspace).1⟩ := by
  induction runs generalizing done workspace specs with
  | nil =>
    obtain rfl := List.length_eq_zero_iff.mp hlength
    rfl
  | cons first runs ih =>
    obtain ⟨spec, specs, rfl⟩ := List.exists_cons_of_length_eq_add_one hlength
    have hrest := Nat.succ.inj hlength
    rw [List.length_cons, List.range'_succ, List.map_cons]
    cases first with
    | error e =>
      have hstep : (⟨workspace, done ++ started (spec :: specs) (.error e :: runs)⟩ :
          Service).after generator (.finish done.length) =
            ⟨workspace, (done ++ [⟨spec, .answered (.error e)⟩]) ++ started specs runs⟩ := by
        simp [Service.after, started, Progress.ofStart]
      have hlast := ih (done ++ [⟨spec, .answered (.error e)⟩]) workspace specs hrest
      rw [List.length_append, List.length_singleton] at hlast
      rw [Service.run, List.foldl_cons, hstep]
      refine hlast.trans ?_
      simp [finishAll, answered]
    | ok run =>
      have hstep : (⟨workspace, done ++ started (spec :: specs) (.ok run :: runs)⟩ :
          Service).after generator (.finish done.length) =
            ⟨(run.finish workspace).2,
              (done ++ [⟨spec, .answered (run.finish workspace).1⟩]) ++ started specs runs⟩ := by
        simp [Service.after, started, Progress.ofStart]
      have hlast := ih (done ++ [⟨spec, .answered (run.finish workspace).1⟩])
        (run.finish workspace).2 specs hrest
      rw [List.length_append, List.length_singleton] at hlast
      rw [Service.run, List.foldl_cons, hstep]
      refine hlast.trans ?_
      simp [finishAll, answered]

/-- Each spec starts a run or is refused. -/
theorem length_startAll (generator : Generator) (specs : List Spec) (workspace : Workspace) :
    (generator.startAll specs workspace).1.length = specs.length := by
  induction specs generalizing workspace with
  | nil => rfl
  | cons spec specs ih => simp [startAll, ih]

/-- Runs that are all started before the first of them ends are requests that all come in before. -/
theorem run_all (generator : Generator) (files : FileSystem) (specs : List Spec) :
    (Service.new files).run generator
        (specs.map .start ++ (List.range specs.length).map .finish) =
      ⟨(generator.generateAll specs ⟨files, .empty⟩).2,
        answered specs (generator.generateAll specs ⟨files, .empty⟩).1⟩ := by
  have hlength := length_startAll generator specs ⟨files, .empty⟩
  have hstarts := run_starts generator (Service.new files) specs
  have hfinishes := run_finishes generator [] (generator.startAll specs ⟨files, .empty⟩).2 specs
    (generator.startAll specs ⟨files, .empty⟩).1 hlength.symm
  rw [hlength, List.length_nil, ← List.range_eq_range'] at hfinishes
  rw [Service.run, List.foldl_append]
  exact (congrArg (fun service => Service.run generator service _) hstarts).trans hfinishes

end All

/-- Once all runs have ended, the slugs are free, and the served requests were answered, and have left
the workspace, as if they had run one after the other. -/
theorem Serial.ended (h : Serial generator base root files service)
    (hended : ∀ request ∈ service.requests, ∀ run, request.progress ≠ .running run) :
    service.workspace.slugs = .empty ∧
      service.served.map Request.progress =
        (generator.generateEach (service.served.map Request.spec) ⟨files, .empty⟩).1.map
          .answered ∧
      service.workspace =
        (generator.generateEach (service.served.map Request.spec) ⟨files, .empty⟩).2 := by
  have hslugs : service.workspace.slugs = .empty := by
    have hnone : service.workspace.slugs.held = [] := by
      refine List.eq_nil_iff_forall_not_mem.mpr fun slug hheld => ?_
      obtain ⟨request, hrequest, ⟨run, hrun⟩, -⟩ := (h.held slug).mp hheld
      exact hended request hrequest run hrun
    rw [SlugTable.empty, ← hnone]
  have hsettled : ∀ requests : List Request,
      (∀ request ∈ requests, ∀ run, request.progress ≠ .running run) → ∀ fs,
        requests.map Request.progress = (inTurn generator.settle requests fs).1.map .answered ∧
          (inTurn generator.settle requests fs).2 = fs := by
    intro requests hnone fs
    induction requests with
    | nil => exact ⟨rfl, rfl⟩
    | cons request requests ih =>
      obtain ⟨hanswers, hleft⟩ := ih fun other ho => hnone other (List.mem_cons_of_mem _ ho)
      cases hprogress : request.progress with
      | running run => exact absurd hprogress (hnone request List.mem_cons_self run)
      | answered answer =>
        simp only [inTurn, settle, hprogress, List.map_cons, hanswers, hleft, and_self]
  obtain ⟨hanswers, hleft⟩ := hsettled service.served
    (fun request hrequest => hended request (List.mem_filter.mp hrequest).1) service.workspace.files
  rw [h.serial, hanswers, hleft, ← hslugs]
  exact ⟨rfl, rfl, rfl⟩

/-- Where no links are and the scaffolds are apart from the output, requests may come in and runs may
end in any order. Once all runs have ended, the requests stand in the order of their starts. One of
them is refused because its slug was in use exactly if its spec was accepted and a run for the slug was
under way when it came in; all others were answered, and have left the workspace, as if they had run
one after the other in that order. No slug is in use. Runs that are all started before the first of
them ends are one such order. -/
theorem run_serializable (hlinks : files.Bare [])
    (hapart : Apart (files.goal generator.scaffolds) (files.goal generator.output))
    (events : List Event) {last : Service}
    (hlast : (Service.new files).run generator events = last)
    (hended : ∀ request ∈ last.requests, ∀ run, request.progress ≠ .running run) :
    last.requests.map Request.spec = events.filterMap Event.spec? ∧
      (∀ earlier spec later, events = earlier ++ .start spec :: later →
        ∃ request, last.requests[(earlier.filterMap Event.spec?).length]? = some request ∧
          request.spec = spec ∧ ∀ slug, request.Busy slug ↔
            spec.siteSlug = .ok slug ∧ spec.check = .ok () ∧
              ∃ other ∈ ((Service.new files).run generator earlier).requests,
                other.InFlight slug) ∧
      last.served.map Request.progress =
        (generator.generateEach (last.served.map Request.spec) ⟨files, .empty⟩).1.map .answered ∧
      last.workspace =
        (generator.generateEach (last.served.map Request.spec) ⟨files, .empty⟩).2 ∧
      last.workspace.slugs = .empty ∧
      ∀ specs : List Spec, (Service.new files).run generator
          (specs.map .start ++ (List.range specs.length).map .finish) =
        ⟨(generator.generateAll specs ⟨files, .empty⟩).2,
          answered specs (generator.generateAll specs ⟨files, .empty⟩).1⟩ := by
  have hnew : Serial generator (files.goal generator.output) (files.goal generator.scaffolds) files
      (Service.new files) := .new ⟨hlinks, rfl, rfl, hapart⟩
  subst hlast
  obtain ⟨hslugs, hanswers, hworkspace⟩ := (hnew.run events).ended hended
  refine ⟨by simpa [Service.new] using specs_run generator (Service.new files) events, ?_, hanswers,
    hworkspace, hslugs, run_all generator files⟩
  rintro earlier spec later rfl
  have hnumber : (earlier.filterMap Event.spec?).length =
      ((Service.new files).run generator earlier).requests.length := by
    rw [← List.length_map (f := Request.spec), specs_run]
    rfl
  obtain ⟨request, hrequests, hspec, hbusy⟩ :=
    requests_start generator ((Service.new files).run generator earlier) spec
  have hat : (((Service.new files).run generator earlier).after generator
      (.start spec)).requests[(earlier.filterMap Event.spec?).length]? = some request := by
    rw [hrequests, hnumber, List.getElem?_concat_length]
  obtain ⟨final, hfinal, hspec', hbusy'⟩ := requests_run generator hat later
  refine ⟨final, ?_, hspec'.trans hspec, fun slug => ?_⟩
  · rw [Service.run, List.foldl_append]
    exact hfinal
  · rw [hbusy', hbusy, (hnew.run earlier).held]

/-- A site with a font, another site, and the first one again before its run has ended. -/
def crowd : List Event :=
  [.start fontSpec, .start secondSpec, .start fontSpec, .finish 1, .finish 0]

/-- The second request for the site with a font is refused, and no slug is in use at the end. -/
theorem run_serializable_crowd :
    (∃ request, ((Service.new plainScaffold).run sideBySide crowd).requests[2]? = some request ∧
      request.Busy "demo") ∧
    ((Service.new plainScaffold).run sideBySide crowd).workspace.slugs = .empty := by
  have houtput : plainScaffold.goal sideBySide.output = ["out"] := by decide +kernel
  have hscaffold : plainScaffold.goal sideBySide.scaffolds = ["scaffold"] := by decide +kernel
  have hapart : Apart (plainScaffold.goal sideBySide.scaffolds)
      (plainScaffold.goal sideBySide.output) := by
    rw [houtput, hscaffold]
    exact ⟨by decide, by decide⟩
  have hanswered : ((Service.new plainScaffold).run sideBySide crowd).requests.map
      Request.progress = [.answered (.ok fontSite), .answered (.ok secondSite),
        .answered (.error (.slugBusy "demo"))] := by decide +kernel
  have hended : ∀ request ∈ ((Service.new plainScaffold).run sideBySide crowd).requests, ∀ run,
      request.progress ≠ .running run := by
    intro request hrequest run hrun
    have hmem := List.mem_map_of_mem (f := Request.progress) hrequest
    rw [hanswered, hrun] at hmem
    simp at hmem
  have hstarted : (((Service.new plainScaffold).run sideBySide
      [.start fontSpec, .start secondSpec]).requests.map Request.progress)[0]? =
        some (.running (sideBySide.runOf "demo")) := by decide +kernel
  have hslug : fontSpec.siteSlug = .ok "demo" := by decide +kernel
  have hcheck : fontSpec.check = .ok () := by decide +kernel
  obtain ⟨-, hbusy, -, -, hslugs, -⟩ :=
    run_serializable bare_plainScaffold hapart crowd rfl hended
  obtain ⟨request, hrequest, -, hiff⟩ :=
    hbusy [.start fontSpec, .start secondSpec] fontSpec [.finish 1, .finish 0] rfl
  refine ⟨⟨request, hrequest, (hiff "demo").mpr ⟨hslug, hcheck, ?_⟩⟩, hslugs⟩
  have hspecs := specs_run sideBySide (Service.new plainScaffold)
    [.start fontSpec, .start secondSpec]
  generalize (Service.new plainScaffold).run sideBySide [.start fontSpec, .start secondSpec] =
    service at hstarted hspecs ⊢
  obtain ⟨workspace, requests⟩ := service
  rcases requests with _ | ⟨first, rest⟩
  · cases hstarted
  · have hspec : first.spec = fontSpec := (List.cons.inj hspecs).1
    exact ⟨first, List.mem_cons_self, ⟨_, Option.some.inj hstarted⟩, hspec ▸ hslug⟩

end Generator

end Siteworks
