import NoKV.Server.Registry

/-!
# The order of installed routes

Calls that change the route table, one after the other. An installation is compared with the route that is
in the table, by placement generation first and owner epoch second. So the routes of a root move forward as
long as nobody goes back after a removal, or raises the generation with a smaller epoch
(`routes_move_forward`).
-/

namespace NoKV.Server

open Lib

inductive RouteCall where
  | install (route : RootRoute)
  | remove (route : RootRoute)

/-- The end of a call that has the registry to itself. -/
def runAlone (next : Registry → Point Unit → Option (Registry × Point Unit)) :
    ℕ → Registry × Point Unit → Registry × Point Unit
  | 0, place => place
  | n + 1, place => ((next place.1 place.2).map (runAlone next n)).getD place

/-- A registry, and the routes that were installed, the newest first. -/
structure RouteLog where
  registry : Registry
  installed : List RootRoute

namespace RouteLog

def init : RouteLog := ⟨.init, []⟩

/-- The route of a root that was installed last. -/
def last (log : RouteLog) (root : RootId) : Option RootRoute :=
  log.installed.find? fun route => route.rootId = root

/-- A registry after a call, and the route it installed. -/
def record (log : RouteLog) : Registry × Point Unit → RouteLog
  | (r, .installed route (.ok ())) => ⟨r, route :: log.installed⟩
  | (r, _) => ⟨r, log.installed⟩

def step (log : RouteLog) : RouteCall → RouteLog
  | .install route => log.record (runAlone (Server.install true) 5 (log.registry, .installStart route))
  | .remove route => log.record (runAlone (Server.remove true) 2 (log.registry, .removeStart route))

/-- For each root, no later route has a smaller generation or a smaller epoch. -/
def Forward (log : RouteLog) : Prop :=
  log.installed.Pairwise fun newer older => newer.rootId = older.rootId →
    older.placementGeneration ≤ newer.placementGeneration ∧ older.ownerEpoch ≤ newer.ownerEpoch

/-- An installation does not lower the epoch with a higher generation, and does not go back where the route
that was installed last has been removed. -/
def Orderly (log : RouteLog) : RouteCall → Prop
  | .remove _ => True
  | .install route => ∀ last, log.last route.rootId = some last →
    (last.placementGeneration < route.placementGeneration → last.ownerEpoch ≤ route.ownerEpoch) ∧
      (log.registry.owners.get route.rootId = none →
        last.placementGeneration ≤ route.placementGeneration ∧ last.ownerEpoch ≤ route.ownerEpoch)

/-- A sequence of calls, each of them orderly. -/
inductive OrderlyRun : RouteLog → Prop where
  | init : OrderlyRun init
  | step {log : RouteLog} {call : RouteCall} (h : OrderlyRun log) (hcall : log.Orderly call) :
    OrderlyRun (log.step call)

/-! ### What a call does -/

variable {log : RouteLog} {route : RootRoute}

lemma runAlone_of_some {next : Registry → Point Unit → Option (Registry × Point Unit)} {n : ℕ}
    {place place' : Registry × Point Unit} (h : next place.1 place.2 = some place') :
    runAlone next (n + 1) place = runAlone next n place' := by
  simp [runAlone, h]

/-- A route that is installed is no rollback of the one in the table. -/
lemma step_install (log : RouteLog) (route : RootRoute) : log.step (.install route) = log ∨
    log.registry.checkRollback route = .ok () ∧ ∃ (r : Registry) (runtime : ℕ),
      log.step (.install route) = ⟨{ r with owners := log.registry.owners.insert route.rootId ⟨route, runtime⟩ },
        route :: log.installed⟩ := by
  have howners : (log.registry.runtimeEntry route.logicalShardId).2.owners = log.registry.owners := by
    unfold Registry.runtimeEntry
    split <;> rfl
  have hstep : log.step (.install route) =
    log.record (runAlone (Server.install true) 5 (log.registry, .installStart route)) := rfl
  rw [hstep]
  cases hvalid : route.validate with
  | error =>
    rw [runAlone_of_some (by rw [Server.install, hvalid])]
    exact .inl rfl
  | ok =>
    have hlocked : Server.install true log.registry (.installAcquire route : Point Unit) =
      some (log.registry, .installLocked route) := rfl
    rw [runAlone_of_some (by rw [Server.install, hvalid]), runAlone_of_some hlocked]
    by_cases hlost : log.registry.lost = true
    · rw [runAlone_of_some (by rw [Server.install, if_pos hlost])]
      exact .inl rfl
    · cases hcheck : log.registry.checkRollback route with
      | error =>
        rw [runAlone_of_some (by rw [Server.install, if_neg hlost, hcheck])]
        exact .inl rfl
      | ok =>
        rw [runAlone_of_some (by rw [Server.install, if_neg hlost, hcheck])]
        refine .inr ⟨rfl, (log.registry.runtimeEntry route.logicalShardId).2,
          (log.registry.runtimeEntry route.logicalShardId).1, ?_⟩
        rw [← howners]
        rfl

lemma step_remove (log : RouteLog) (route : RootRoute) : log.step (.remove route) = log ∨
    log.step (.remove route) = ⟨{ log.registry with owners := log.registry.owners.erase route.rootId }, log.installed⟩ := by
  have hstep : log.step (.remove route) =
    log.record (runAlone (Server.remove true) 2 (log.registry, .removeStart route)) := rfl
  rw [hstep]
  cases hvalid : route.validate with
  | error =>
    rw [runAlone_of_some (by rw [Server.remove, hvalid])]
    exact .inl rfl
  | ok =>
    rw [runAlone_of_some (by rw [Server.remove, hvalid])]
    simp only [runAlone, Server.remove, if_true]
    split
    · exact .inr rfl
    · exact .inl rfl

/-! ### What a sequence of calls keeps -/

/-- The routes so far, and that a route in the table is the one that was installed last. -/
structure Inv (log : RouteLog) : Prop where
  forward : log.Forward
  owner : ∀ root owner, log.registry.owners.get root = some owner → log.last root = some owner.route

lemma last_cons (r : Registry) (root : RootId) : (⟨r, route :: log.installed⟩ : RouteLog).last root =
    if route.rootId = root then some route else log.last root := by
  unfold last
  rw [List.find?_cons]
  split <;> simp_all

/-- What was installed for a root is behind what was installed for it last. -/
lemma Forward.le_last (h : log.Forward) {older : RootRoute} (holder : older ∈ log.installed) :
    ∃ last, log.last older.rootId = some last ∧ older.placementGeneration ≤ last.placementGeneration ∧
      older.ownerEpoch ≤ last.ownerEpoch := by
  unfold Forward at h
  unfold last
  generalize log.installed = routes at h holder
  induction routes with
  | nil => cases holder
  | cons newer _ ih =>
    obtain ⟨hnewer, hrest⟩ := List.pairwise_cons.1 h
    rw [List.find?_cons]
    by_cases hroot : newer.rootId = older.rootId
    · simp only [hroot, decide_true]
      refine ⟨newer, rfl, ?_⟩
      rcases List.mem_cons.1 holder with rfl | hmem
      · exact ⟨UInt64.le_refl _, UInt64.le_refl _⟩
      · exact hnewer older hmem hroot
    · simp only [hroot, decide_false]
      refine ih hrest ((List.mem_cons.1 holder).resolve_left ?_)
      rintro rfl
      exact hroot rfl

lemma Inv.step {call : RouteCall} (h : log.Inv) (hcall : log.Orderly call) : (log.step call).Inv := by
  cases call with
  | remove route =>
    rcases step_remove log route with heq | heq <;> rw [heq]
    · exact h
    · exact ⟨h.forward, fun root owner howner => h.owner root owner (OrdMap.get_of_get_erase howner)⟩
  | install route =>
    rcases step_install log route with heq | ⟨hcheck, r, _, heq⟩ <;> rw [heq]
    · exact h
    · refine ⟨List.pairwise_cons.2 ⟨fun older holder hroot => ?_, h.forward⟩, fun root owner howner => ?_⟩
      · -- a route in the table is the one that was installed last, and the check compares with it
        obtain ⟨last, hlast, hgeneration, hepoch⟩ := h.forward.le_last holder
        rw [← hroot] at hlast
        obtain ⟨hraise, hback⟩ := hcall last hlast
        suffices last.placementGeneration ≤ route.placementGeneration ∧ last.ownerEpoch ≤ route.ownerEpoch from
          ⟨UInt64.le_trans hgeneration this.1, UInt64.le_trans hepoch this.2⟩
        cases hcurrent : log.registry.owners.get route.rootId with
        | none => exact hback hcurrent
        | some current =>
          obtain rfl : current.route = last := Option.some.inj ((h.owner _ _ hcurrent).symm.trans hlast)
          have hcheck := ok_of_bind (ifSome_eq_ok.1 hcheck current hcurrent)
          obtain ⟨hge, heq⟩ := not_or.1 (refuseIf_eq_ok.1 hcheck)
          rw [UInt64.lt_iff_toNat_lt] at hge hraise
          rw [← UInt64.toNat_inj, UInt64.lt_iff_toNat_lt] at heq
          rw [UInt64.le_iff_toNat_le] at hraise ⊢
          rw [UInt64.le_iff_toNat_le]
          omega
      · rw [last_cons]
        rw [OrdMap.get_insert] at howner
        by_cases hroot : root = route.rootId
        · rw [if_pos hroot] at howner
          cases howner
          rw [if_pos hroot.symm]
        · rw [if_neg hroot] at howner
          rw [if_neg (Ne.symm hroot)]
          exact h.owner root owner howner

/-- **Routes move forward** along every orderly sequence of calls. -/
theorem routes_move_forward (h : OrderlyRun log) : log.Forward := by
  suffices log.Inv from this.forward
  induction h with
  | init => exact ⟨.nil, fun _ _ h => by cases h⟩
  | step _ hcall ih => exact ih.step hcall

def sampleRoute (generation epoch : UInt64) : RootRoute :=
  ⟨.fill 16 0, .fill 16 1, .fill 16 2, generation, epoch⟩

/-- Three installations with growing epochs, the last of them after a removal. -/
theorem routes_move_forward_sample : ((((init.step (.install (sampleRoute 1 1))).step
    (.install (sampleRoute 1 2))).step (.remove (sampleRoute 1 2))).step (.install (sampleRoute 2 2))).Forward := by
  refine routes_move_forward (.step (.step (.step (.step .init ?_) ?_) trivial) ?_)
  · rintro last ⟨⟩
  · rintro last ⟨⟩
    exact ⟨by decide, by decide⟩
  · rintro _ ⟨⟩
    exact ⟨by decide, by decide⟩

/-- A removal forgets the order, and a higher generation may come with a smaller epoch. -/
theorem routes_move_backward :
    ¬ (((init.step (.install (sampleRoute 2 2))).step (.remove (sampleRoute 2 2))).step
      (.install (sampleRoute 1 1))).Forward ∧
    ¬ ((init.step (.install (sampleRoute 1 5))).step (.install (sampleRoute 2 1))).Forward := by
  unfold Forward
  decide

end RouteLog

end NoKV.Server
