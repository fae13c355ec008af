import FxVol.PlacementSystem
import Mathlib.Logic.Function.Iterate

/-!
# The gate before a live submit places

The pass over the legs of `submit_structure_live` has the allow-list and the collar of each leg; a BAG is built
and placed before it.
-/
namespace FxVol.SubmitGate

/-- `base` of `build_combo` -/
def baseQty (legs : List StructureOrder) : ℕ := (legs.map (·.qty)).foldl Nat.gcd 0

/-- `lmtPrice` of `build_combo`: none unless every leg has a price -/
def netLimit (legs : List StructureOrder) : Option ℚ :=
  if legs.all (·.limitPrice.isSome) then
    some (pyRound (legs.map fun o => sideSign o.side * (o.qty / baseQty legs : ℕ) * o.limitPrice.getD 0).sum 4)
  else none

inductive IbOrder
  | leg (p : PreparedLeg)
  | bag (legs : List StructureOrder) (totalQuantity : ℕ) (lmtPrice : Option ℚ)

def IbOrder.limits : IbOrder → List (StructureOrder × ℚ)
  | .leg p => (p.limit.map fun limit => (p.order, limit)).toList
  | .bag legs _ lmtPrice => if lmtPrice.isSome then legs.filterMap fun o => o.limitPrice.map fun limit => (o, limit) else []

/-- The calls of `ib.placeOrder` in a step of `submit_structure_live` -/
def placeCalls : SubmitPc → List IbOrder
  | .bagReady legs => [.bag (legs.map (·.1)) (baseQty (legs.map (·.1))) (netLimit (legs.map (·.1)))]
  | .placing (leg :: _) _ => if leg.orderOk then [.leg leg] else []
  | _ => []

/-- A step without a call sends nothing. -/
theorem submitStep_sent {cfg : SubmitConfig} {a : Answer} {w : World} {s : ℕ} {useCombo : Bool} {pc : SubmitPc}
    (h : placeCalls pc = []) : (submitStep cfg a w s useCombo pc).1.sent = w.sent := by
  cases pc with
  | bagReady legs => cases h
  | start | checked | claimed | bagSent | legSent =>
    rw [submitStep]
    split_ifs <;> rfl
  | aborting => rfl
  | selected legs =>
    rw [submitStep]
    split_ifs
    · split <;> rfl
    · split <;> rfl
    · rfl
  | prepared legs =>
    rw [submitStep]
    split <;> rfl
  | placing rest placed =>
    cases rest with
    | nil => rfl
    | cons leg rest =>
      have hbad : ¬ leg.orderOk = true := by
        intro hok
        rw [placeCalls, if_pos hok] at h
        cases h
      rw [submitStep, if_pos hbad]
  | failed =>
    rw [submitStep]
    split <;> rfl

def legSymbol (o : StructureOrder) : String := (if o.contractSymbol = "" then "EUR" else o.contractSymbol).toUpper

/-- The limit is within the collar of the leg's preview price. -/
def InCollar (cfg : SubmitConfig) (o : StructureOrder) (limit : ℚ) : Prop :=
  ∃ preview, o.previewPrice = some preview ∧ collarOk limit preview cfg.collarPct = true

/-- A live submit of a structure, with what comes from outside at each of its steps -/
structure LiveSubmit where
  cfg : SubmitConfig
  world : World
  structureId : ℕ
  useCombo : Bool
  answer : SubmitPc → Answer

namespace LiveSubmit

variable (q : LiveSubmit)

def legs : List (StructureOrder × ℕ) := eligibleLegs q.world.db q.structureId

def orders : List StructureOrder := q.legs.map (·.1)

/-- The legs go as one BAG. -/
def takesCombo : Prop :=
  q.useCombo ∧ canUseCombo q.orders ∧ (q.orders.all fun o => o.contractType ≠ .future) ∧ 2 ≤ q.orders.length

instance : Decidable q.takesCombo := inferInstanceAs (Decidable (_ ∧ _))

def qualify : ℕ → QualifyAnswer := (q.answer (.selected q.legs)).qualify

def quote : ℕ → Quote := (q.answer (.prepared q.legs)).quote

/-- The limit that a leg is sent with, alone or in the net price of a BAG -/
def legLimit (p : StructureOrder × ℕ) : Option ℚ :=
  if q.takesCombo then (if (netLimit q.orders).isSome then p.1.limitPrice else none)
  else if p.1.orderType = .mkt then none
  else some (marketableFromQuote p.1.side (q.quote p.2) (p.1.limitPrice.getD 0))

/-- What a leg has to pass: its contract, the allow-list, and the collar -/
structure Passes (p : StructureOrder × ℕ) : Prop where
  contract : (if q.takesCombo then prepareComboLeg p.1 p.2 (q.qualify p.2) else prepareLeg p.1 p.2 (q.qualify p.2)) =
    .ok ()
  symbol : legSymbol p.1 ∈ q.cfg.allowedSymbols
  collar : ∀ limit ∈ q.legLimit p, InCollar q.cfg p.1 limit

def advance : World × Option SubmitPc → World × Option SubmitPc
  | (w, none) => (w, none)
  | (w, some pc) => submitStep q.cfg (q.answer pc) w q.structureId q.useCombo pc

/-- The call after so many steps -/
def after (n : ℕ) : World × Option SubmitPc := q.advance^[n] (q.world, some .start)

/-- The call gets its claim, finds legs to place, and looks at them. -/
structure Examines : Prop where
  connected : (q.answer .start).connected = true
  submitted : (q.world.db.structures[q.structureId]?).any (·.state = .submitted) = true
  claimable : q.world.claimable (.structure q.structureId) = true
  legs : q.legs ≠ []
  ensured : (q.answer (.selected q.legs)).connected = true

/-- No order escapes the gate: nothing is placed but with every leg allowed and every limit within its collar, and
where a leg does not pass, nothing is sent and all is left as it was. -/
structure Gated : Prop where
  calls : ∀ n pc, (q.after n).2 = some pc → ∀ o ∈ placeCalls pc,
    (∀ p ∈ q.legs, legSymbol p.1 ∈ q.cfg.allowedSymbols) ∧ ∀ l ∈ o.limits, InCollar q.cfg l.1 l.2
  refused : q.Examines → (∃ p ∈ q.legs, ¬ q.Passes p) →
    (∀ n, (q.after n).1.sent = q.world.sent) ∧ ∃ N, ∀ n ≥ N, q.after n = (q.world, none)

/-- The checks of the call's own path let the legs through. -/
def LetsThrough : Prop :=
  if q.takesCombo then prepareCombo q.legs q.qualify = .ok ()
  else prepareLegs q.legs q.qualify = .ok () ∧ ∃ prepared, gateLegs q.cfg q.quote q.legs = .ok prepared

/-- Of the legs of a BAG that is built, each is allowed, and where it has a net price within its collar; of legs that
pass on their own, each with a limit has a preview price. -/
def Complies : Prop :=
  q.Examines → q.LetsThrough → ∀ p ∈ q.legs,
    if q.takesCombo then legSymbol p.1 ∈ q.cfg.allowedSymbols ∧ ∀ limit ∈ q.legLimit p, InCollar q.cfg p.1 limit
    else p.1.orderType = .mkt ∨ ∃ preview, p.1.previewPrice = some preview ∧ preview ≠ 0

theorem each_ok {ε α : Type} (f : α → Except ε Unit) (xs : List α) :
    xs.foldlM (fun _ a => f a) () = .ok () ↔ ∀ a ∈ xs, f a = .ok () := by
  induction xs with
  | nil => exact iff_of_true rfl (by simp)
  | cons x xs ih =>
    rw [List.foldlM_cons, List.forall_mem_cons, ← ih]
    cases hx : f x with
    | error e => exact iff_of_false nofun (fun h => nomatch h.1)
    | ok u => exact ⟨fun h => ⟨rfl, h⟩, And.right⟩

theorem prepareLegs_ok {legs : List (StructureOrder × ℕ)} {qualify : ℕ → QualifyAnswer} :
    prepareLegs legs qualify = .ok () ↔ ∀ p ∈ legs, prepareLeg p.1 p.2 (qualify p.2) = .ok () := by
  rw [← each_ok fun p : StructureOrder × ℕ => prepareLeg p.1 p.2 (qualify p.2)]
  simp [prepareLegs]
theorem prepareCombo_ok {legs : List (StructureOrder × ℕ)} {qualify : ℕ → QualifyAnswer} :
    prepareCombo legs qualify = .ok () ↔ (∀ p ∈ legs, prepareComboLeg p.1 p.2 (qualify p.2) = .ok ()) ∧
      ∀ p ∈ legs, p.1.qty ≠ 0 := by
  rw [← each_ok fun p : StructureOrder × ℕ => prepareComboLeg p.1 p.2 (qualify p.2)]
  have hloop : prepareCombo legs qualify = (legs.foldlM (fun _ p => prepareComboLeg p.1 p.2 (qualify p.2)) () >>=
      fun _ => if legs.any fun p => p.1.qty = 0 then .error .badCombo else .ok ()) := by
    simp [prepareCombo]
  rw [hloop]
  cases legs.foldlM (fun _ p => prepareComboLeg p.1 p.2 (qualify p.2)) () with
  | error e => exact iff_of_false nofun (fun h => nomatch h.1)
  | ok u =>
    change (if legs.any fun p => p.1.qty = 0 then _ else _) = _ ↔ _
    by_cases hzero : ∀ p ∈ legs, p.1.qty ≠ 0
    · rw [if_neg (by simpa using hzero)]
      exact iff_of_true rfl ⟨rfl, hzero⟩
    · rw [if_pos (by simpa using hzero)]
      exact iff_of_false nofun fun h => hzero h.2

theorem gateLeg_ok {cfg : SubmitConfig} {o : StructureOrder} {quote : Quote} {limit : Option ℚ}
    (h : gateLeg cfg o quote = .ok limit) : legSymbol o ∈ cfg.allowedSymbols ∧
      (o.orderType = .mkt ∧ limit = none ∨ o.orderType ≠ .mkt ∧
        limit = some (marketableFromQuote o.side quote (o.limitPrice.getD 0)) ∧
          collarOk (marketableFromQuote o.side quote (o.limitPrice.getD 0))
            ((orPrice o.previewPrice o.limitPrice).getD 0) cfg.collarPct = true) := by
  change (if legSymbol o ∉ cfg.allowedSymbols then Except.error (LiveSubmitError.symbolNotAllowed (legSymbol o))
    else if o.orderType = .mkt then .ok none
    else if collarOk (marketableFromQuote o.side quote (o.limitPrice.getD 0))
        ((orPrice o.previewPrice o.limitPrice).getD 0) cfg.collarPct then
      .ok (some (marketableFromQuote o.side quote (o.limitPrice.getD 0)))
    else .error (LiveSubmitError.priceCollar _ _ _)) = _ at h
  by_cases hsymbol : legSymbol o ∈ cfg.allowedSymbols
  · rw [if_neg (not_not.mpr hsymbol)] at h
    refine ⟨hsymbol, ?_⟩
    split_ifs at h with hmarket hcollar
    · exact .inl ⟨hmarket, (Except.ok.inj h).symm⟩
    · exact .inr ⟨hmarket, (Except.ok.inj h).symm, hcollar⟩
  · rw [if_pos hsymbol] at h
    cases h

/-- The legs that are prepared are those of the structure, each past its gate. -/
theorem gateLegs_ok {cfg : SubmitConfig} {quote : ℕ → Quote} {legs : List (StructureOrder × ℕ)}
    {prepared : List PreparedLeg} (h : gateLegs cfg quote legs = .ok prepared) :
    (∀ p ∈ legs, ∃ limit, gateLeg cfg p.1 (quote p.2) = .ok limit) ∧
      ∀ leg ∈ prepared, (leg.order, leg.orderId) ∈ legs ∧ gateLeg cfg leg.order (quote leg.orderId) = .ok leg.limit := by
  induction legs generalizing prepared with
  | nil =>
    rw [gateLegs] at h
    obtain rfl := Except.ok.inj h
    exact ⟨by simp, by simp⟩
  | cons p legs ih =>
    rw [gateLegs] at h
    cases hleg : gateLeg cfg p.1 (quote p.2) with
    | error e =>
      rw [hleg] at h
      cases h
    | ok limit =>
      rw [hleg] at h
      cases hrest : gateLegs cfg quote legs with
      | error e =>
        rw [hrest] at h
        cases h
      | ok rest =>
        rw [hrest] at h
        obtain rfl := Except.ok.inj h
        obtain ⟨hall, hprepared⟩ := ih hrest
        refine ⟨List.forall_mem_cons.mpr ⟨⟨limit, hleg⟩, hall⟩, List.forall_mem_cons.mpr ⟨?_, ?_⟩⟩
        · exact ⟨List.mem_cons_self, hleg⟩
        · intro leg hmem
          exact ⟨List.mem_cons_of_mem _ (hprepared leg hmem).1, (hprepared leg hmem).2⟩

theorem inCollar_of_ref {cfg : SubmitConfig} {o : StructureOrder} {limit preview : ℚ} (hpreview : o.previewPrice = some preview)
    (hne : preview ≠ 0) (h : collarOk limit ((orPrice o.previewPrice o.limitPrice).getD 0) cfg.collarPct = true) :
    InCollar cfg o limit := by
  have href : (orPrice o.previewPrice o.limitPrice).getD 0 = preview := by
    rw [orPrice, hpreview, Option.filter_some_pos (by simpa using hne)]
    rfl
  exact ⟨preview, hpreview, href ▸ h⟩

theorem InCollar.preview {cfg : SubmitConfig} {o : StructureOrder} {limit : ℚ} (h : InCollar cfg o limit) :
    ∃ preview, o.previewPrice = some preview ∧ preview ≠ 0 := by
  obtain ⟨preview, hpreview, hcollar⟩ := h
  refine ⟨preview, hpreview, ?_⟩
  rw [collarOk, decide_eq_true_eq] at hcollar
  exact hcollar.1.ne'

variable {q}

/-- Where the legs are let through, they pass just where they comply. -/
theorem passes_iff (h : q.LetsThrough) : (∀ p ∈ q.legs, q.Passes p) ↔ ∀ p ∈ q.legs,
    if q.takesCombo then legSymbol p.1 ∈ q.cfg.allowedSymbols ∧ ∀ limit ∈ q.legLimit p, InCollar q.cfg p.1 limit
    else p.1.orderType = .mkt ∨ ∃ preview, p.1.previewPrice = some preview ∧ preview ≠ 0 := by
  unfold LetsThrough at h
  by_cases hcombo : q.takesCombo
  · rw [if_pos hcombo, prepareCombo_ok] at h
    simp only [if_pos hcombo]
    refine forall₂_congr fun p hp => ⟨fun hpass => ⟨hpass.symbol, hpass.collar⟩, fun hleg => ⟨?_, hleg.1, hleg.2⟩⟩
    rw [if_pos hcombo]
    exact h.1 p hp
  · rw [if_neg hcombo, prepareLegs_ok] at h
    obtain ⟨hprepare, prepared, hgate⟩ := h
    simp only [if_neg hcombo]
    refine forall₂_congr fun p hp => ?_
    obtain ⟨limit, hlimit⟩ := (gateLegs_ok hgate).1 p hp
    obtain ⟨hsymbol, hprice⟩ := gateLeg_ok hlimit
    constructor
    · intro hpass
      by_cases hmarket : p.1.orderType = .mkt
      · exact .inl hmarket
      · have hcollar := hpass.collar (marketableFromQuote p.1.side (q.quote p.2) (p.1.limitPrice.getD 0)) (by
          rw [legLimit, if_neg hcombo, if_neg hmarket]
          rfl)
        exact .inr (InCollar.preview hcollar)
    · intro hleg
      refine ⟨by rw [if_neg hcombo]; exact hprepare p hp, hsymbol, fun lp hlp => ?_⟩
      rw [legLimit, if_neg hcombo] at hlp
      rcases hprice with ⟨hmarket, -⟩ | ⟨hmarket, -, hcollar⟩
      · rw [if_pos hmarket] at hlp
        cases hlp
      · rw [if_neg hmarket] at hlp
        cases hlp
        obtain ⟨preview, hpreview, hne⟩ := hleg.resolve_left hmarket
        exact inCollar_of_ref hpreview hne hcollar

section Steps

theorem forall_iterate {α : Type} {f : α → α} {x : α} {Q : α → Prop} :
    (∀ n, Q (f^[n] x)) ↔ Q x ∧ ∀ n, Q (f^[n] (f x)) := by
  constructor
  · exact fun h => ⟨h 0, fun n => h (n + 1)⟩
  · rintro ⟨hzero, hsucc⟩ n
    cases n with
    | zero => exact hzero
    | succ n => exact hsucc n

theorem invariant_iterate {α : Type} {f : α → α} {I : α → Prop} (keep : ∀ x, I x → I (f x)) {x : α} (h : I x) (n : ℕ) :
    I (f^[n] x) := by
  induction n with
  | zero => exact h
  | succ n ih =>
    rw [Function.iterate_succ_apply']
    exact keep _ ih

variable (q)

def handed (r : World × Option SubmitPc) : List IbOrder := (r.2.map placeCalls).getD []

/-- Nothing is placed, and nothing is sent, whatever else is done. -/
def Idle (r : World × Option SubmitPc) : Prop :=
  ∀ n, handed (q.advance^[n] r) = [] ∧ (q.advance^[n] r).1.sent = q.world.sent

/-- The call ends with all as it was. -/
def Restores (r : World × Option SubmitPc) : Prop := ∃ N, ∀ n ≥ N, q.advance^[n] r = (q.world, none)

theorem ended (w : World) (n : ℕ) : q.advance^[n] (w, none) = (w, none) := Function.iterate_fixed rfl n

variable {q}

theorem idle_ended {w : World} (h : w.sent = q.world.sent) : q.Idle (w, none) := by
  intro n
  rw [ended]
  exact ⟨rfl, h⟩

theorem Idle.step {r : World × Option SubmitPc} (hhanded : handed r = []) (hsent : r.1.sent = q.world.sent)
    (h : q.Idle (q.advance r)) : q.Idle r :=
  (forall_iterate (Q := fun r => handed r = [] ∧ r.1.sent = q.world.sent)).mpr ⟨⟨hhanded, hsent⟩, h⟩

theorem Restores.step {r : World × Option SubmitPc} (h : q.Restores (q.advance r)) : q.Restores r := by
  obtain ⟨N, hN⟩ := h
  refine ⟨N + 1, fun n hn => ?_⟩
  obtain ⟨m, rfl⟩ : ∃ m, n = m + 1 := ⟨n - 1, by omega⟩
  exact hN m (by omega)

theorem restores_ended : q.Restores (q.world, none) := ⟨0, fun n _ => q.ended q.world n⟩

variable (q)

def claimed : World := q.world.setClaim (some (q.answer .checked).now) (.structure q.structureId)

variable {q}

/-- The claim is released to what it was. -/
theorem released (h : q.world.claimable (.structure q.structureId) = true) :
    q.claimed.setClaim none (.structure q.structureId) = q.world := by
  have hrows : ∀ (rows : List TradeStructure) (s : ℕ) (now : Instant),
      (rows[s]?.any fun r => r.submitClaimedAt = none) = true →
        ((rows.modify s fun r => { r with submitClaimedAt := some now }).modify s fun r =>
          { r with submitClaimedAt := none }) = rows := by
    intro rows s now hnone
    apply List.ext_getElem?
    intro i
    rw [List.getElem?_modify, List.getElem?_modify]
    by_cases hi : s = i
    · subst hi
      cases hrow : rows[s]? with
      | none => rfl
      | some r =>
        rw [hrow, Option.any_some, decide_eq_true_eq] at hnone
        simp only [if_true, Option.map_eq_map, Option.map_some, ← hnone]
    · simp only [hi, if_false, Option.map_eq_map, Option.map_id']
  exact congrArg (fun rows => ({ q.world with db := { q.world.db with structures := rows } } : World))
    (hrows q.world.db.structures q.structureId (q.answer .checked).now h)

theorem aborts (h : q.world.claimable (.structure q.structureId) = true) :
    q.Idle (q.claimed, some .aborting) ∧ q.Restores (q.claimed, some .aborting) := by
  have hstep : q.advance (q.claimed, some .aborting) = (q.world, none) := by
    rw [← released h]
    rfl
  constructor
  · refine Idle.step rfl rfl ?_
    rw [hstep]
    exact idle_ended rfl
  · refine Restores.step ?_
    rw [hstep]
    exact restores_ended

theorem advance_start : q.advance (q.world, some .start) =
    (q.world, if (q.answer .start).connected ∧ (q.world.db.structures[q.structureId]?).any (·.state = .submitted) then
      some .checked else none) := by
  rw [advance, submitStep]
  split_ifs <;> rfl

theorem advance_checked : q.advance (q.world, some .checked) =
    if q.world.claimable (.structure q.structureId) then (q.claimed, some .claimed) else (q.world, none) := rfl

theorem advance_claimed (h : q.legs ≠ []) :
    q.advance (q.claimed, some .claimed) = (q.claimed, some (.selected q.legs)) := if_pos h

/-- A call that does not get to look at legs places nothing. -/
theorem idle_of_not_examines (h : ¬ q.Examines) : q.Idle (q.world, some .start) := by
  refine Idle.step rfl rfl ?_
  rw [advance_start]
  split_ifs with hstart
  swap
  · exact idle_ended rfl
  refine Idle.step rfl rfl ?_
  rw [advance_checked]
  split_ifs with hclaim
  swap
  · exact idle_ended rfl
  refine Idle.step rfl rfl ?_
  by_cases hlegs : q.legs = []
  · have hnone : q.advance (q.claimed, some .claimed) = (q.claimed, some .aborting) ∨
        q.advance (q.claimed, some .claimed) = (q.claimed, none) := by
      rw [advance, submitStep]
      change (if q.legs ≠ [] then _ else _) = _ ∨ (if q.legs ≠ [] then _ else _) = _
      rw [if_neg (not_not.mpr hlegs)]
      split_ifs
      · exact .inl rfl
      · exact .inr rfl
    rcases hnone with hnone | hnone
    · rw [hnone]
      exact (aborts hclaim).1
    · rw [hnone]
      exact idle_ended rfl
  · rw [advance_claimed hlegs]
    refine Idle.step rfl rfl ?_
    have hdown : ¬ (q.answer (.selected q.legs)).connected = true :=
      fun hup => h ⟨hstart.1, hstart.2, hclaim, hlegs, hup⟩
    have hstep : q.advance (q.claimed, some (.selected q.legs)) = (q.claimed, none) := if_pos hdown
    rw [hstep]
    exact idle_ended rfl

/-- A call that does gets to the checks of its path. -/
theorem after_selected (h : q.Examines) (n : ℕ) : q.after (n + 3) = q.advance^[n] (q.claimed, some (.selected q.legs)) := by
  rw [after, Function.iterate_add_apply]
  congr 1
  change q.advance (q.advance (q.advance (q.world, some .start))) = _
  rw [advance_start, if_pos ⟨h.connected, h.submitted⟩, advance_checked, if_pos h.claimable, advance_claimed h.legs]

/-- The claim stays taken once an order may have been placed, and the legs in hand are of those that were prepared. -/
def Late (good : IbOrder → Prop) (r : World × Option SubmitPc) : Prop :=
  r.1.submitClaim (.structure q.structureId) = some (q.answer .checked).now ∧
    match r.2 with
    | none | some (.bagSent _ _) | some .failed => True
    | some (.bagReady legs) => ∀ o ∈ placeCalls (.bagReady legs), good o
    | some (.placing rest _) | some (.legSent _ _ rest _) => ∀ leg ∈ rest, good (.leg leg)
    | _ => False

theorem stamped_structures (ids : IbIds) (now : Instant) (orderIds : List ℕ) (db : Db) :
    (orderIds.foldl (fun db i => stampLive db i ids.orderId ids.permId none now) db).structures = db.structures := by
  induction orderIds generalizing db with
  | nil => rfl
  | cons i orderIds ih => exact ih _

theorem late_advance {good : IbOrder → Prop} (r : World × Option SubmitPc) (h : q.Late good r) :
    q.Late good (q.advance r) := by
  obtain ⟨w, _ | pc⟩ := r
  · exact h
  · obtain ⟨hclaim, hpc⟩ := h
    cases pc with
    | start | checked | claimed | aborting | selected | prepared => exact hpc.elim
    | bagReady legs =>
      rw [advance, submitStep]
      split <;> exact ⟨hclaim, trivial⟩
    | bagSent legs ids =>
      rw [advance, submitStep]
      split_ifs
      · refine ⟨?_, trivial⟩
        change ((List.foldl _ w.db _).structures[q.structureId]?).bind _ = _
        rw [stamped_structures]
        exact hclaim
      · exact ⟨hclaim, trivial⟩
    | placing rest placed =>
      cases rest with
      | nil => exact ⟨hclaim, trivial⟩
      | cons leg rest =>
        rw [advance, submitStep]
        by_cases hok : leg.orderOk
        · rw [if_neg (not_not.mpr hok)]
          split
          · exact ⟨hclaim, trivial⟩
          · exact ⟨hclaim, fun leg' hleg => hpc leg' (List.mem_cons_of_mem _ hleg)⟩
        · rw [if_pos hok]
          exact ⟨hclaim, trivial⟩
    | legSent leg ids rest placed =>
      rw [advance, submitStep]
      split_ifs
      · exact ⟨hclaim, hpc⟩
      · exact ⟨hclaim, trivial⟩
    | failed =>
      rw [advance, submitStep]
      change (w.db.structures[q.structureId]?).bind _ = _ at hclaim
      cases hrow : w.db.structures[q.structureId]? with
      | none =>
        rw [hrow] at hclaim
        cases hclaim
      | some row =>
        refine ⟨?_, trivial⟩
        change ((w.db.structures.set q.structureId _)[q.structureId]?).bind _ = _
        rw [List.getElem?_set_self (List.getElem?_eq_some_iff.mp hrow).1]
        rw [hrow] at hclaim
        exact hclaim

theorem late_handed {good : IbOrder → Prop} {r : World × Option SubmitPc} (h : q.Late good r) :
    ∀ o ∈ handed r, good o := by
  intro o ho
  obtain ⟨w, _ | pc⟩ := r
  · cases (ho : o ∈ [])
  · obtain ⟨-, hpc⟩ := h
    cases pc with
    | start | checked | claimed | aborting | selected | prepared => exact hpc.elim
    | bagReady legs => exact hpc o ho
    | bagSent | legSent | failed => cases (ho : o ∈ [])
    | placing rest placed =>
      cases rest with
      | nil => cases (ho : o ∈ [])
      | cons leg rest =>
        change o ∈ (if leg.orderOk then [IbOrder.leg leg] else []) at ho
        split_ifs at ho
        · rw [List.mem_singleton.mp ho]
          exact hpc leg List.mem_cons_self
        · cases ho

theorem claimed_claim (h : q.world.claimable (.structure q.structureId) = true) :
    q.claimed.submitClaim (.structure q.structureId) = some (q.answer .checked).now := by
  change ((q.world.db.structures.modify q.structureId _)[q.structureId]?).bind _ = _
  rw [List.getElem?_modify_eq]
  change (q.world.db.structures[q.structureId]?).any _ = true at h
  cases hrow : q.world.db.structures[q.structureId]? with
  | none =>
    rw [hrow] at h
    cases h
  | some row => rfl

theorem advance_selected (h : (q.answer (.selected q.legs)).connected = true) :
    q.advance (q.claimed, some (.selected q.legs)) = (q.claimed, some
      (if q.takesCombo then
        match prepareCombo q.legs q.qualify with
        | .error _ => .aborting
        | .ok _ => .bagReady q.legs
      else
        match prepareLegs q.legs q.qualify with
        | .error _ => .aborting
        | .ok _ => .prepared q.legs)) := by
  rw [advance, submitStep, if_neg (not_not.mpr h)]
  change (if q.takesCombo then _ else _) = _
  split_ifs
  · change (match prepareCombo q.legs q.qualify with | .error _ => _ | .ok _ => _) = _
    cases prepareCombo q.legs q.qualify <;> rfl
  · change (match prepareLegs q.legs q.qualify with | .error _ => _ | .ok _ => _) = _
    cases prepareLegs q.legs q.qualify <;> rfl

theorem advance_prepared : q.advance (q.claimed, some (.prepared q.legs)) = (q.claimed, some
    (match gateLegs q.cfg q.quote q.legs with
    | .error _ => .aborting
    | .ok prepared => .placing prepared [])) := by
  have hquote : (q.answer (.prepared q.legs)).quote = q.quote := rfl
  rw [advance, submitStep, hquote]
  cases gateLegs q.cfg q.quote q.legs with
  | error e => rfl
  | ok prepared => rfl

/-- Legs that are let through are in hand, under the claim. -/
theorem after_lets (good : IbOrder → Prop) (h : q.Examines) (hlets : q.LetsThrough)
    (hbag : q.takesCombo → good (.bag q.orders (baseQty q.orders) (netLimit q.orders)))
    (hlegs : ¬ q.takesCombo → ∀ prepared, gateLegs q.cfg q.quote q.legs = .ok prepared → ∀ leg ∈ prepared, good (.leg leg))
    (n : ℕ) : (∀ o ∈ handed (q.after n), good o) ∧ (5 ≤ n → q.Late good (q.after n)) := by
  have hearly : ∀ {r : World × Option SubmitPc} {m : ℕ}, handed r = [] → m < 5 →
      (∀ o ∈ handed r, good o) ∧ (5 ≤ m → q.Late good r) := by
    intro r m hhanded hm
    exact ⟨by simp [hhanded], fun hle => absurd hle (by omega)⟩
  have hlate : ∀ {r : World × Option SubmitPc} {m k : ℕ}, q.Late good r →
      (∀ o ∈ handed (q.advance^[m] r), good o) ∧ (5 ≤ k → q.Late good (q.advance^[m] r)) := by
    intro r m k hr
    have hm := invariant_iterate (q.late_advance) hr m
    exact ⟨late_handed hm, fun _ => hm⟩
  have hclaim := claimed_claim h.claimable
  match n with
  | 0 => exact hearly rfl (by decide)
  | 1 =>
    refine hearly ?_ (by decide)
    change handed (q.advance (q.world, some .start)) = []
    rw [advance_start, if_pos ⟨h.connected, h.submitted⟩]
    rfl
  | 2 =>
    refine hearly ?_ (by decide)
    change handed (q.advance (q.advance (q.world, some .start))) = []
    rw [advance_start, if_pos ⟨h.connected, h.submitted⟩, advance_checked, if_pos h.claimable]
    rfl
  | 3 =>
    refine hearly ?_ (by decide)
    rw [after_selected h 0]
    rfl
  | n + 4 =>
    rw [after_selected h (n + 1), Function.iterate_succ_apply, advance_selected h.ensured]
    rw [LetsThrough] at hlets
    by_cases hcombo : q.takesCombo
    · rw [if_pos hcombo] at hlets ⊢
      rw [hlets]
      exact hlate ⟨hclaim, by
        intro o ho
        rw [List.mem_singleton.mp ho]
        exact hbag hcombo⟩
    · rw [if_neg hcombo] at hlets ⊢
      obtain ⟨hprepare, prepared, hgate⟩ := hlets
      rw [hprepare]
      cases n with
      | zero => exact hearly rfl (by decide)
      | succ n =>
        have hstep : q.advance (q.claimed, some (.prepared q.legs)) = (q.claimed, some (.placing prepared [])) := by
          rw [advance_prepared, hgate]
        rw [Function.iterate_succ_apply, hstep]
        exact hlate ⟨hclaim, hlegs hcombo prepared hgate⟩

/-- Legs that are not let through are left, and the claim with them. -/
theorem idle_of_not_lets (h : q.Examines) (hlets : ¬ q.LetsThrough) :
    q.Idle (q.world, some .start) ∧ q.Restores (q.world, some .start) := by
  have hselected : q.Idle (q.claimed, some (.selected q.legs)) ∧ q.Restores (q.claimed, some (.selected q.legs)) := by
    have habort := aborts h.claimable
    rw [LetsThrough] at hlets
    suffices hnext : q.Idle (q.advance (q.claimed, some (.selected q.legs))) ∧
        q.Restores (q.advance (q.claimed, some (.selected q.legs))) from ⟨hnext.1.step rfl rfl, hnext.2.step⟩
    rw [advance_selected h.ensured]
    by_cases hcombo : q.takesCombo
    · rw [if_pos hcombo] at hlets ⊢
      cases hprepare : prepareCombo q.legs q.qualify with
      | error e => exact habort
      | ok u => exact absurd hprepare hlets
    · rw [if_neg hcombo] at hlets ⊢
      cases hprepare : prepareLegs q.legs q.qualify with
      | error e => exact habort
      | ok u =>
        have hstep : q.advance (q.claimed, some (.prepared q.legs)) = (q.claimed, some .aborting) := by
          rw [advance_prepared]
          cases hgate : gateLegs q.cfg q.quote q.legs with
          | error e => rfl
          | ok prepared => exact absurd ⟨hprepare, prepared, hgate⟩ hlets
        refine ⟨Idle.step rfl rfl ?_, Restores.step ?_⟩
        · rw [hstep]
          exact habort.1
        · rw [hstep]
          exact habort.2
  constructor
  · refine Idle.step rfl rfl ?_
    rw [advance_start, if_pos ⟨h.connected, h.submitted⟩]
    refine Idle.step rfl rfl ?_
    rw [advance_checked, if_pos h.claimable]
    refine Idle.step rfl rfl ?_
    rw [advance_claimed h.legs]
    exact hselected.1
  · refine Restores.step ?_
    rw [advance_start, if_pos ⟨h.connected, h.submitted⟩]
    refine Restores.step ?_
    rw [advance_checked, if_pos h.claimable]
    refine Restores.step ?_
    rw [advance_claimed h.legs]
    exact hselected.2

end Steps

/-- Every order in hand of legs that pass is as the gate has it. -/
theorem passes_limits {q : LiveSubmit} (h : ∀ p ∈ q.legs, q.Passes p) :
    (q.takesCombo → ∀ l ∈ (IbOrder.bag q.orders (baseQty q.orders) (netLimit q.orders)).limits, InCollar q.cfg l.1 l.2) ∧
      (¬ q.takesCombo → ∀ prepared, gateLegs q.cfg q.quote q.legs = .ok prepared →
        ∀ leg ∈ prepared, ∀ l ∈ (IbOrder.leg leg).limits, InCollar q.cfg l.1 l.2) := by
  constructor
  · intro hcombo l hl
    rw [IbOrder.limits] at hl
    split_ifs at hl with hnet
    · obtain ⟨o, ho, hpair⟩ := List.mem_filterMap.mp hl
      obtain ⟨limit, hlimit, rfl⟩ := Option.map_eq_some_iff.mp hpair
      obtain ⟨p, hp, rfl⟩ := List.mem_map.mp ho
      refine (h p hp).collar limit ?_
      rw [legLimit, if_pos hcombo, if_pos hnet]
      exact hlimit
    · cases hl
  · intro hcombo prepared hgate leg hleg l hl
    obtain ⟨hmem, hpass⟩ := (gateLegs_ok hgate).2 leg hleg
    obtain ⟨limit, hlimit, rfl⟩ := Option.map_eq_some_iff.mp (Option.mem_toList.mp hl)
    refine (h _ hmem).collar limit ?_
    rcases (gateLeg_ok hpass).2 with ⟨-, hnone⟩ | ⟨hmarket, hsome, -⟩
    · rw [hnone] at hlimit
      cases hlimit
    · rw [legLimit, if_neg hcombo, if_neg hmarket, ← hsome]
      exact hlimit

/-- The gate holds just where the legs that are let through comply with it. -/
theorem gated_iff (q : LiveSubmit) : q.Gated ↔ q.Complies := by
  constructor
  · intro hgated hexamines hlets
    refine (passes_iff hlets).mp fun p hp => ?_
    by_contra hfails
    obtain ⟨-, N, hN⟩ := hgated.refused hexamines ⟨p, hp, hfails⟩
    have hlate := (after_lets (fun _ => True) hexamines hlets (fun _ => trivial) (fun _ _ _ _ _ => trivial) (N + 5)).2
      (Nat.le_add_left 5 N)
    rw [hN (N + 5) (Nat.le_add_right N 5)] at hlate
    -- the claim is still taken, where it should be free again
    have hclaim : (q.world.db.structures[q.structureId]?).bind (·.submitClaimedAt) = some _ := hlate.1
    have hfree : (q.world.db.structures[q.structureId]?).any (fun r => r.submitClaimedAt = none) = true :=
      hexamines.claimable
    obtain ⟨row, hrow, htaken⟩ := Option.bind_eq_some_iff.mp hclaim
    rw [hrow, Option.any_some, htaken] at hfree
    cases hfree
  · intro hcomplies
    constructor
    · intro n pc hpc o ho
      have hhanded : o ∈ handed (q.after n) := by
        rw [handed, hpc]
        exact ho
      by_cases hexamines : q.Examines
      · by_cases hlets : q.LetsThrough
        · have hpasses := (passes_iff hlets).mpr (hcomplies hexamines hlets)
          have hsymbols : ∀ p ∈ q.legs, legSymbol p.1 ∈ q.cfg.allowedSymbols := fun p hp => (hpasses p hp).symbol
          obtain ⟨hbag, hlegs⟩ := passes_limits hpasses
          exact (after_lets (fun o => (∀ p ∈ q.legs, legSymbol p.1 ∈ q.cfg.allowedSymbols) ∧
            ∀ l ∈ o.limits, InCollar q.cfg l.1 l.2) hexamines hlets (fun hcombo => ⟨hsymbols, hbag hcombo⟩)
            (fun hcombo prepared hgate leg hleg => ⟨hsymbols, hlegs hcombo prepared hgate leg hleg⟩) n).1 o hhanded
        · rw [after, ((idle_of_not_lets hexamines hlets).1 n).1] at hhanded
          cases hhanded
      · rw [after, (idle_of_not_examines hexamines n).1] at hhanded
        cases hhanded
    · rintro hexamines ⟨p, hp, hfails⟩
      have hlets : ¬ q.LetsThrough := fun hlets =>
        hfails ((passes_iff hlets).mpr (hcomplies hexamines hlets) p hp)
      obtain ⟨hidle, hrestores⟩ := idle_of_not_lets hexamines hlets
      exact ⟨fun n => (hidle n).2, hrestores⟩

end LiveSubmit

/-- Only micro futures are allowed; the structure has two calls on EUR. -/
def comboSubmit : LiveSubmit where
  cfg := ⟨["M6E"], 1 / 2⟩
  world := { World.empty with db := submitPreview .empty [callLeg .buy 1, callLeg .sell 1] 0 }
  structureId := 0
  useCombo := true
  answer _ :=
    { now := 0
      connected := true
      qualify := fun _ => ⟨true, false⟩
      quote := fun _ => ⟨none, none, none⟩
      hedgeLimit := none
      placed := some ⟨some 1, some 1⟩
      committed := true }

theorem not_gated : ¬ ∀ q : LiveSubmit, q.Gated := by
  intro hall
  have hgated := hall comboSubmit
  have hcall : (comboSubmit.after 4).2 = some (.bagReady comboSubmit.legs) := by decide +kernel
  obtain ⟨hallowed, -⟩ := hgated.calls 4 _ hcall _ (List.mem_singleton.mpr rfl)
  revert hallowed
  decide +kernel

end FxVol.SubmitGate
