import FxVol.ContractMonths

/-!
# Templates as free legs

A template's legs can be written as the legs a user composes freely: the tenor and the pillar that the template resolves
to, its sides and quantities.  `build_from_legs` trades the nearest listed tenor where the one asked for is not listed.
`build_structure` keeps the one asked for, so the two agree where it is listed.
-/
namespace FxVol.FreeTemplates

open TradePreviews ContractMonths

def resolveTenor (req : TemplateRequest) (lt : TemplateLeg) : Named Tenor :=
  if lt.far then req.farTenor.getD req.nearTenor else req.nearTenor

def templateLegs (req : TemplateRequest) : List TemplateLeg := req.structureType.template.legs

def isSingleLeg (req : TemplateRequest) : Bool := (templateLegs req).length == 1

def freeLeg (req : TemplateRequest) (lt : TemplateLeg) : TradePreviews.LegSpec where
  contractType := lt.contractType
  side := lt.side
  tenor := resolveTenor req lt
  deltaPillar := some ((templatePillar req lt).elim .other .known)
  strike := if isSingleLeg req then req.strikeOverride else none
  qtyFactor := lt.qtyFactor
  futureContractSize := req.futureContractSize

def tradedTenor (s : Surface) (spec : TradePreviews.LegSpec) : Named Tenor :=
  match spec.tenor with
  | .known t => .known (if spec.contractType = .future then t else snapTenor t s)
  | .other => .other

def TradesListed (s : Surface) (tenor : Named Tenor) : Prop :=
  listedTenors s ≠ [] → ∃ t ∈ listedTenors s, tenor = .known t

/-- The two builders have the same legs and tenors, and their options trade listed tenors; the days of a leg tell its
expiry. -/
structure SameLegs (req : TemplateRequest) (s : Surface) : Prop where
  legs : ∃ structure', buildFromLegs ((templateLegs req).map (freeLeg req)) s = .ok structure' ∧
    structure'.legs = (buildStructure req s).legs
  tenors : ∀ lt ∈ templateLegs req, tradedTenor s (freeLeg req lt) = resolveTenor req lt
  template : ∀ lt ∈ templateLegs req, lt.contractType ≠ .future → TradesListed s (resolveTenor req lt)
  free : ∀ lt ∈ templateLegs req, lt.contractType ≠ .future → TradesListed s (tradedTenor s (freeLeg req lt))

/-- The leg's tenor has a name, and an option's pillar too; an option's tenor is listed unless none is. -/
def Resolves (req : TemplateRequest) (s : Surface) (lt : TemplateLeg) : Prop :=
  ∃ t, resolveTenor req lt = .known t ∧ (lt.contractType ≠ .future → (templatePillar req lt).isSome = true ∧
    (t ∈ listedTenors s ∨ listedTenors s = []))

section Snap
variable {s : Surface} {t : Tenor}

theorem snap_mem (h : listedTenors s ≠ []) (t : Tenor) : snapTenor t s ∈ listedTenors s := by
  rw [snapTenor]
  split_ifs with hlisted
  · exact hlisted
  · cases hbest : (listedTenors s).argmin fun u => ((u.dte : ℤ) - t.dte).natAbs with
    | none => exact absurd (List.argmin_eq_none.mp hbest) h
    | some best => exact List.argmin_mem hbest

/-- A tenor stays as it is where it is listed, or where none is. -/
theorem snap_eq_iff : snapTenor t s = t ↔ t ∈ listedTenors s ∨ listedTenors s = [] := by
  constructor
  · intro h
    by_cases hnone : listedTenors s = []
    · exact .inr hnone
    · exact .inl (h ▸ snap_mem hnone t)
  · rintro (hlisted | hnone)
    · rw [snapTenor, if_pos hlisted]
    · rw [snapTenor, hnone]
      rfl

theorem dte_injective : Function.Injective Tenor.dte := by
  intro t u h
  revert h
  cases t <;> cases u <;> decide

end Snap

section Legs
variable {req : TemplateRequest} {s : Surface} {lt : TemplateLeg}

theorem template_strike (req : TemplateRequest) (node : Option ℚ) :
    (if isSingleLeg req = true ∧ req.strikeOverride.isSome = true then req.strikeOverride else node) =
      (if isSingleLeg req = true then req.strikeOverride else none).or node := by
  cases isSingleLeg req <;> cases req.strikeOverride <;> rfl

/-- The free leg is built as the template's leg just when it resolves. -/
theorem freeLeg_build (hqty : 0 < lt.qtyFactor) (i : ℕ) :
    (freeLeg req lt).build s i = .ok (lt.build req (isSingleLeg req) s i) ↔ Resolves req s lt := by
  unfold LegSpec.build Resolves
  cases htenor : resolveTenor req lt with
  | other => simp [freeLeg, htenor]
  | known t =>
    have hsame : (∃ u, Named.known t = Named.known u ∧ (lt.contractType ≠ .future →
        (templatePillar req lt).isSome = true ∧ (u ∈ listedTenors s ∨ listedTenors s = []))) ↔
        (lt.contractType ≠ .future → (templatePillar req lt).isSome = true ∧ snapTenor t s = t) := by
      rw [snap_eq_iff]
      simp
    rw [hsame]
    by_cases hfuture : lt.contractType = .future
    · refine iff_of_true ?_ fun hoption => absurd hfuture hoption
      simp [freeLeg, htenor, hfuture, not_le.mpr hqty, TemplateLeg.build, show
        (if lt.far then req.farTenor.getD req.nearTenor else req.nearTenor) = .known t from htenor]
    · rw [template_build s _ htenor hfuture, template_strike]
      cases hpillar : templatePillar req lt with
      | none => simp [freeLeg, htenor, hfuture, hpillar, not_le.mpr hqty]
      | some pillar =>
        simp only [freeLeg, htenor, hpillar, Option.elim, Option.getD_some, if_neg (not_le.mpr hqty),
          Option.bind_some, Option.isSome_some, true_and, ne_eq, hfuture, not_false_eq_true, true_implies, if_false]
        constructor
        · intro h
          exact dte_injective (congrArg Leg.dte (Except.ok.inj h))
        · intro h
          rw [h]

/-- The loop over the free legs gives the template's legs just when every one resolves. -/
theorem freeLegs_build (lts : List TemplateLeg) (hqty : ∀ lt ∈ lts, 0 < lt.qtyFactor) (i : ℕ) :
    buildLegs s i (lts.map (freeLeg req)) = .ok (lts.mapIdx fun k lt => lt.build req (isSingleLeg req) s (i + k)) ↔
      ∀ lt ∈ lts, Resolves req s lt := by
  induction lts generalizing i with
  | nil => simp [buildLegs]
  | cons lt lts ih =>
    have hrest := ih (fun lt' h => hqty lt' (List.mem_cons_of_mem _ h)) (i + 1)
    have hshift : (lts.mapIdx fun k lt => lt.build req (isSingleLeg req) s (i + (k + 1))) =
        lts.mapIdx fun k lt => lt.build req (isSingleLeg req) s (i + 1 + k) := by
      simp only [add_assoc, add_comm 1]
    rw [List.forall_mem_cons, ← freeLeg_build (hqty lt List.mem_cons_self) i, ← hrest, List.map_cons, List.mapIdx_cons,
      hshift, add_zero]
    constructor
    · intro h
      obtain ⟨leg, legs, hleg, hlegs, heq⟩ := buildLegs_cons h
      obtain ⟨rfl, rfl⟩ := List.cons.inj heq
      exact ⟨hleg, hlegs⟩
    · rintro ⟨hleg, hlegs⟩
      rw [buildLegs, hleg]
      dsimp only
      rw [hlegs]

/-- A leg that resolves trades its own tenor. -/
theorem tradedTenor_eq (h : Resolves req s lt) : tradedTenor s (freeLeg req lt) = resolveTenor req lt := by
  obtain ⟨t, htenor, hoption⟩ := h
  rw [tradedTenor, freeLeg, htenor]
  dsimp only
  split_ifs with hfuture
  · rfl
  · rw [snap_eq_iff.mpr (hoption hfuture).2]

theorem trades_listed (h : Resolves req s lt) (hoption : lt.contractType ≠ .future) :
    TradesListed s (resolveTenor req lt) := by
  obtain ⟨t, htenor, hquoted⟩ := h
  intro hlisted
  exact ⟨t, (hquoted hoption).2.resolve_right hlisted, htenor⟩

end Legs

theorem templateLegs_qty (req : TemplateRequest) : ∀ lt ∈ templateLegs req, 0 < lt.qtyFactor := by
  rw [templateLegs]
  cases req.structureType <;> simp [StructureType.template]

theorem templateLegs_ne_nil (req : TemplateRequest) : templateLegs req ≠ [] := by
  rw [templateLegs]
  cases req.structureType <;> simp [StructureType.template]

theorem built_legs {specs : List TradePreviews.LegSpec} (h : specs ≠ []) (s : Surface) (legs : List Leg) :
    (∃ structure', buildFromLegs specs s = .ok structure' ∧ structure'.legs = legs) ↔ buildLegs s 0 specs = .ok legs := by
  rw [buildFromLegs, if_neg h]
  cases buildLegs s 0 specs with
  | error e => simp
  | ok built => simp

/-- A template and its free legs agree just when every leg resolves: its tenor and pillar are known, and an option's tenor
is listed, or none is. -/
theorem same_legs_iff (req : TemplateRequest) (s : Surface) :
    SameLegs req s ↔ ∀ lt ∈ templateLegs req, Resolves req s lt := by
  have hlegs : (∃ structure', buildFromLegs ((templateLegs req).map (freeLeg req)) s = .ok structure' ∧
      structure'.legs = (buildStructure req s).legs) ↔ ∀ lt ∈ templateLegs req, Resolves req s lt := by
    rw [built_legs (by simpa using templateLegs_ne_nil req), ← freeLegs_build _ (templateLegs_qty req) 0]
    simp only [zero_add]
    rfl
  constructor
  · exact fun h => hlegs.mp h.legs
  · intro h
    constructor
    · exact hlegs.mpr h
    · exact fun lt hlt => tradedTenor_eq (h lt hlt)
    · exact fun lt hlt => trades_listed (h lt hlt)
    · intro lt hlt hoption
      rw [tradedTenor_eq (h lt hlt)]
      exact trades_listed (h lt hlt) hoption

def twoListed : Surface where
  cell t _ :=
    match t with
    | .m2 => some ⟨some (7 / 100), some (11 / 10), false⟩
    | .m3 => some ⟨some (71 / 1000), some (11 / 10), true⟩
    | _ => none
  svi := none

def straddleAt (tenor : Tenor) : TemplateRequest := ⟨.straddleAtm, .known tenor, none, none, none, none⟩

/-- The template trades the three months that are not listed, the free legs two. -/
theorem not_same_legs : ¬ ∀ req s, SameLegs req s := by
  intro h
  let call : TemplateLeg := { contractType := .call, deltaPillar := .atm, side := .buy }
  have hcall : call ∈ templateLegs (straddleAt .m3) := List.mem_cons_self
  obtain ⟨t, hlisted, htenor⟩ := (h (straddleAt .m3) twoListed).template call hcall (by decide) (by decide)
  obtain rfl : Tenor.m3 = t := Named.known.inj htenor
  exact absurd hlisted (by decide)

end FxVol.FreeTemplates
