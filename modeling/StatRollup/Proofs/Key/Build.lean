import StatRollup.Proofs.Key.Coalescing
import StatRollup.Proofs.Statistic.Masks

/-!
# Which keys an event has

Tags are given in any order and come out in the order of their names.  What comes out is, beside the
names, exactly what was given (`byPosition_eq_ok`).  So tags are accepted when they are the declared
ones, each once, and in whatever order.  The keys follow from the ordered tags: one for each
required mask, ascending, with the values at the positions of the mask rolled up (`build_exactly`).

An event is therefore found under every required mask once, and names are supported exactly when
there is such a mask for them (`supported_in_one_key`).
-/

namespace StatRollup

namespace Statistic

variable {s : Statistic} {α : Type} {slots slots' : List (Option α)}
  {tagged tagged' : List (String × α)} {as : List α} {names : List String} {f : Fault}

/-! ## The declared tags, each once -/

/-- Only tags that are declared and different are placed, each in an empty slot. -/
theorem free_of_placeAll (hlen : slots.length = s.tags.toList.length)
    (h : s.placeAll slots tagged = .ok slots') : (tagged.map Prod.fst).Nodup ∧
      ∀ x ∈ tagged, ∃ p, s.positionOf? x.1 = some p ∧ slots[p]? = some none := by
  induction tagged generalizing slots with
  | nil => simp
  | cons x tagged ih =>
    obtain ⟨tag, a⟩ := x
    rw [placeAll] at h
    split at h
    · cases h
    · next p hp =>
      have hlt : p < slots.length := by
        rw [hlen]
        exact (List.getElem?_eq_some_iff.1 (getElem?_of_positionOf? hp)).1
      split at h
      · cases h
      · next hfree =>
        obtain ⟨hnodup, hrest⟩ := ih (by rw [List.length_set, hlen]) h
        -- The other tags were placed after the slot of this one was filled.
        have hother : ∀ x ∈ tagged, ∃ q, s.positionOf? x.1 = some q ∧ p ≠ q ∧
            slots[q]? = some none := by
          intro x hx
          obtain ⟨q, hq, hslot⟩ := hrest x hx
          by_cases hpq : p = q
          · rw [← hpq, List.getElem?_set_self hlt] at hslot
            cases hslot
          · rw [List.getElem?_set_ne hpq] at hslot
            exact ⟨q, hq, hpq, hslot⟩
        have hslot : slots[p]? = some none := by
          rw [List.getElem?_eq_getElem hlt] at hfree ⊢
          cases hp' : slots[p] with
          | none => rfl
          | some b => exact absurd (by rw [hp']) (hfree b)
        refine ⟨List.nodup_cons.2 ⟨fun htag => ?_, hnodup⟩,
          List.forall_mem_cons.2 ⟨⟨p, hp, hslot⟩, fun x hx => ?_⟩⟩
        · obtain ⟨x, hx, heq⟩ := List.mem_map.1 htag
          obtain ⟨q, hq, hpq, _⟩ := hother x hx
          rw [heq, hp] at hq
          exact hpq (Option.some.inj hq)
        · obtain ⟨q, hq, _, hslot⟩ := hother x hx
          exact ⟨q, hq, hslot⟩

theorem kind_of_placeAll (h : s.placeAll slots tagged = .error f) : f.kind = .invalidEvent := by
  induction tagged generalizing slots with
  | nil => cases h
  | cons x tagged ih =>
    rw [placeAll] at h
    split at h
    · cases h
      rfl
    · split at h
      · cases h
        rfl
      · exact ih h

theorem kind_of_takeAll {tags : List String} (h : s.takeAll slots tags = .error f) :
    f.kind = .invalidEvent := by
  induction slots generalizing tags with
  | nil => cases tags <;> cases h
  | cons slot slots ih =>
    cases tags with
    | nil => cases slot <;> cases h
    | cons tag tags =>
      cases slot with
      | none =>
        cases h
        rfl
      | some a =>
        rw [takeAll] at h
        cases hrest : s.takeAll slots tags with
        | error f' =>
          rw [hrest] at h
          cases h
          exact ih hrest
        | ok rest =>
          rw [hrest] at h
          cases h

/-- Tags that do not fit the declared ones make an event invalid. -/
theorem kind_of_byPosition (h : s.byPosition tagged = .error f) : f.kind = .invalidEvent := by
  rcases bind_eq_error.1 h with h | ⟨slots, _, h⟩
  · exact kind_of_placeAll h
  · exact kind_of_takeAll h

theorem map_fst_zip_tags (h : as.length = s.tags.size) :
    (s.tags.toList.zip as).map Prod.fst = s.tags.toList :=
  List.map_fst_zip (Nat.le_of_eq h.symm)

/-- What is put in order is what was given, beside the declared tags. -/
theorem perm_of_byPosition (h : s.byPosition tagged = .ok as) :
    as.length = s.tags.size ∧ (s.tags.toList.zip as).Perm tagged := by
  obtain ⟨hlen, hiff⟩ := mem_iff_of_byPosition h
  rw [byPosition] at h
  obtain ⟨slots, hslots, _⟩ := bind_eq_ok.1 h
  have hgiven : tagged.Nodup := .of_map Prod.fst (free_of_placeAll (by simp) hslots).1
  have hzip : (s.tags.toList.zip as).Nodup := by
    refine .of_map Prod.fst ?_
    rw [map_fst_zip_tags hlen]
    exact s.tags.nodup
  refine ⟨hlen, (List.perm_ext_iff_of_nodup hzip hgiven).2 ?_⟩
  rintro ⟨tag, a⟩
  rw [hiff, List.mem_iff_getElem?]
  simp only [List.getElem?_zip_eq_some]

/-- Things are put in order when, beside the declared tags, they are what was given. -/
theorem byPosition_eq_ok : s.byPosition tagged = .ok as ↔
    as.length = s.tags.size ∧ (s.tags.toList.zip as).Perm tagged := by
  refine ⟨perm_of_byPosition, fun ⟨hlen, hperm⟩ => ?_⟩
  have hfst := map_fst_zip_tags hlen
  obtain ⟨as', has'⟩ := byPosition_ok (hfst ▸ (hperm.map Prod.fst).symm)
  obtain ⟨hlen', hperm'⟩ := perm_of_byPosition has'
  have hfst' := map_fst_zip_tags hlen'
  have hzip : s.tags.toList.zip as' = s.tags.toList.zip as :=
    eq_of_perm_of_map Prod.fst (hperm'.trans hperm.symm) (hfst'.trans hfst.symm)
      (by rw [hfst']; exact s.tags.nodup)
  have hsnd := congrArg (List.map Prod.snd) hzip
  rw [List.map_snd_zip (Nat.le_of_eq hlen'), List.map_snd_zip (Nat.le_of_eq hlen)] at hsnd
  rw [has', hsnd]

/-- Things are put in order exactly when they are given for the declared tags, each once. -/
theorem byPosition_isOk_iff :
    (∃ as, s.byPosition tagged = .ok as) ↔ (tagged.map Prod.fst).Perm s.tags.toList := by
  refine ⟨fun ⟨as, has⟩ => ?_, byPosition_ok⟩
  obtain ⟨hlen, hperm⟩ := perm_of_byPosition has
  rw [← map_fst_zip_tags hlen]
  exact (hperm.map Prod.fst).symm

/-- The order in which things are given does not matter. -/
theorem byPosition_eq_ok_perm (h : tagged'.Perm tagged) :
    s.byPosition tagged' = .ok as ↔ s.byPosition tagged = .ok as := by
  rw [byPosition_eq_ok, byPosition_eq_ok]
  exact and_congr_right fun _ => ⟨fun hperm => hperm.trans h, fun hperm => hperm.trans h.symm⟩

theorem checkTags_eq_ok : s.checkTags names = .ok () ↔ names.Perm s.tags.toList := by
  refine ⟨fun h => ?_, checkTags_ok⟩
  rw [checkTags] at h
  obtain ⟨as, has, _⟩ := bind_eq_ok.1 h
  have hperm := byPosition_isOk_iff.1 ⟨as, has⟩
  rw [List.map_map] at hperm
  rw [← List.map_id names]
  exact hperm

theorem kind_of_checkTags (h : s.checkTags names = .error f) : f.kind = .invalidEvent := by
  rcases bind_eq_error.1 h with h | ⟨_, _, h⟩
  · exact kind_of_byPosition h
  · cases h

end Statistic

namespace Key

variable {s : Statistic} {u : Uid} {time : Timestamp} {names : List String}
  {tagged tagged' : List (String × TagValue)} {ts : List TagValue} {ks : List Key} {k : Key}
  {f : Fault}

/-! ## The keys -/

/-- A key has the time and precision that it should have, and the tags of its mask: in order of
their identifiers the given ones, where the value of a rolled-up position is all ones of the same
width. -/
structure Fits (s : Statistic) (statistic : Uid) (time : Timestamp) (ts : List TagValue)
    (k : Key) : Prop where
  statistic_eq : k.statistic = statistic
  interval_eq : k.interval = s.precision
  columnTime_eq : k.columnTime = s.precision.columnStart time
  rowTime_eq : k.rowTime = s.precision.rowStart time
  ordered : IsSorted k.tags
  tags : k.tags.Perm (ts.mapIdx fun p t =>
    if k.mask.isRolledUp p then ⟨t.tag, t.value.rolledUp⟩ else t)

theorem build_eq_ok : build s u time tagged = .ok ks ↔
    ∃ ts, s.byPosition tagged = .ok ts ∧
      s.requiredMasks.map (fun mask => of u mask s.precision time (rollUp mask ts)) = ks := by
  rw [build, bind_eq_ok]
  simp [pure, Except.pure]

/-- Keys that are built are one for each required mask, and fit. -/
theorem fits_of_build (h : build s u time tagged = .ok ks) :
    ks.map mask = s.requiredMasks ∧
    ∃ ts : List TagValue, ts.length = s.tags.size ∧ (s.tags.toList.zip ts).Perm tagged ∧
      ∀ k ∈ ks, Fits s u time ts k := by
  obtain ⟨ts, hts, rfl⟩ := build_eq_ok.1 h
  obtain ⟨hlen, hperm⟩ := Statistic.perm_of_byPosition hts
  refine ⟨?_, ts, hlen, hperm, fun k hk => ?_⟩
  · rw [List.map_map]
    exact List.map_id' _
  · obtain ⟨m, _, rfl⟩ := List.mem_map.1 hk
    exact ⟨rfl, rfl, rfl, rowTime_of .., isSorted_insertionSort _, perm_insertionSort _⟩

theorem kind_of_build (h : build s u time tagged = .error f) :
    f.kind = .invalidEvent := by
  rcases bind_eq_error.1 h with h | ⟨_, _, h⟩
  · exact Statistic.kind_of_byPosition h
  · cases h

/-- Tags in another order make the same keys, or are refused as well. -/
theorem build_perm (h : tagged'.Perm tagged) :
    (build s u time tagged').mapError Fault.kind =
      (build s u time tagged).mapError Fault.kind := by
  have hok : ∀ ks, build s u time tagged' = .ok ks ↔
      build s u time tagged = .ok ks := fun ks => by
    simp only [build_eq_ok, Statistic.byPosition_eq_ok_perm h]
  cases hks : build s u time tagged with
  | ok ks => rw [(hok ks).2 hks]
  | error f =>
    cases hks' : build s u time tagged' with
    | ok ks =>
      rw [(hok ks).1 hks'] at hks
      cases hks
    | error f' => simp only [Except.mapError, kind_of_build hks, kind_of_build hks']

/-- Tags are accepted when they are the declared ones, each once, and make an event invalid
otherwise.  Accepted tags, in the order of their names, make one key for each required mask,
ascending.  The order in which they were given matters for nothing but which of them is refused. -/
theorem build_exactly (s : Statistic) (statistic : Uid) (time : Timestamp)
    (tagged : List (String × TagValue)) :
    (s.checkTags (tagged.map Prod.fst) = .ok () ↔ (tagged.map Prod.fst).Perm s.tags.toList) ∧
    ((∃ ks, build s statistic time tagged = .ok ks) ↔
      (tagged.map Prod.fst).Perm s.tags.toList) ∧
    (∀ f, s.checkTags (tagged.map Prod.fst) = .error f → f.kind = .invalidEvent) ∧
    (∀ f, build s statistic time tagged = .error f → f.kind = .invalidEvent) ∧
    (∀ ks, build s statistic time tagged = .ok ks →
      ks.map mask = s.requiredMasks ∧ (s.requiredMasks.Pairwise fun a b => a.bits < b.bits) ∧
      ∃ ts : List TagValue, ts.length = s.tags.size ∧ (s.tags.toList.zip ts).Perm tagged ∧
        ∀ k ∈ ks, Fits s statistic time ts k) ∧
    ∀ tagged' : List (String × TagValue), tagged'.Perm tagged →
      (build s statistic time tagged').mapError Fault.kind =
        (build s statistic time tagged).mapError Fault.kind := by
  refine ⟨Statistic.checkTags_eq_ok, ?_, fun f => Statistic.kind_of_checkTags,
    fun f => kind_of_build, fun ks h => ?_, fun tagged' => build_perm⟩
  · rw [← Statistic.byPosition_isOk_iff]
    simp only [build_eq_ok]
    constructor
    · rintro ⟨ks, ts, hts, _⟩
      exact ⟨ts, hts⟩
    · rintro ⟨ts, hts⟩
      exact ⟨_, ts, hts, rfl⟩
  · obtain ⟨hmasks, hfits⟩ := fits_of_build h
    exact ⟨hmasks, s.sorted_requiredMasks, hfits⟩

/-- The tags of an order, as identifiers. -/
def orderTags : List (String × TagValue) :=
  Event.Orders.first.tags.map fun t => (t.name, t.exchange Event.Orders.place)

/-- The tags of an order make the keys of both masks, also the other way round, and repeated tags
are refused. -/
theorem build_exactly_order :
    (∃ ks, build Event.Orders.statistic (Event.Orders.place "orders") 60999 orderTags = .ok ks ∧
      (ks.map mask).map Mask.bits = [0, 2]) ∧
    (build Event.Orders.statistic (Event.Orders.place "orders") 60999
        orderTags.reverse).mapError Fault.kind =
      (build Event.Orders.statistic (Event.Orders.place "orders") 60999
        orderTags).mapError Fault.kind ∧
    ¬ ∃ ks, build Event.Orders.statistic (Event.Orders.place "orders") 60999
      (orderTags ++ orderTags) = .ok ks := by
  obtain ⟨_, hok, _, _, hkeys, hperm⟩ :=
    build_exactly Event.Orders.statistic (Event.Orders.place "orders") 60999 orderTags
  obtain ⟨_, hrepeated, _⟩ := build_exactly Event.Orders.statistic (Event.Orders.place "orders")
    60999 (orderTags ++ orderTags)
  obtain ⟨ks, hks⟩ := hok.2 (by decide)
  refine ⟨⟨ks, hks, ?_⟩, hperm _ (List.reverse_perm _), fun h => ?_⟩
  · rw [(hkeys ks hks).1]
    decide
  · exact absurd (hrepeated.1 h) (by decide)

/-! ## Asking for names -/

/-- Names are supported exactly when a required mask rolls up these tags and no others.  Then only
one mask does, and among the keys that are built for an event one is under it. -/
theorem supported_in_one_key (h : s.Valid) (names : List String) :
    (s.supports names = true ↔ ∃ m ∈ s.requiredMasks, s.Names m names) ∧
    (s.supports names = true → ∃ m ∈ s.requiredMasks, s.Names m names ∧
      (∀ m' ∈ s.requiredMasks, s.Names m' names → m' = m) ∧
      ∀ statistic time tagged ks, build s statistic time tagged = .ok ks →
        (ks.map mask).count m = 1) := by
  refine ⟨h.supports_iff_names, fun hsupports => ?_⟩
  obtain ⟨m, hin, hnames⟩ := h.supports_iff_names.1 hsupports
  refine ⟨m, hin, hnames, fun m' hin' hnames' => ?_, fun statistic time tagged ks hks => ?_⟩
  · exact hnames'.mask_eq hnames (fun p => h.lt_of_isRolledUp hin')
      fun p => h.lt_of_isRolledUp hin
  · rw [(fits_of_build hks).1]
    exact List.count_eq_one_of_mem s.nodup_requiredMasks hin

theorem supported_in_one_key_system :
    Event.Orders.statistic.Valid ∧ (∃ m ∈ Event.Orders.statistic.requiredMasks,
      Event.Orders.statistic.Names m ["system", "system"]) ∧
    ¬ ∃ m ∈ Event.Orders.statistic.requiredMasks, Event.Orders.statistic.Names m ["env"] := by
  have hvalid : Event.Orders.statistic.Valid := by decide
  obtain ⟨hsystem, _⟩ := supported_in_one_key hvalid ["system", "system"]
  obtain ⟨henv, _⟩ := supported_in_one_key hvalid ["env"]
  exact ⟨hvalid, hsystem.1 (by decide), fun h => absurd (henv.2 h) (by decide)⟩

end Key

end StatRollup
