import HookRelay.Lib.PyJsonRoundTrip

/-!
# What `json.loads` returns

Every value read is plain, and `json.dumps` writes it under the same limits: its integers have no more
digits than their texts, and it is nested no deeper than the scanner recursed.
-/

namespace PyJson

/-- A value `dumps` writes and `loads` reads back. -/
def Exact (limit : Nat) (v : Value) : Prop := Plain v ∧ (dumps limit v).isSome

/-! ## Strings -/

/-- A joined pair is no surrogate. -/
theorem join_astral {high low : CodePoint} (h : isHigh high = true) :
    isHigh (join high low h) = false ∧ isLow (join high low h) = false := by
  have astral : 0x10000 ≤ (join high low h).val :=
    Nat.le_trans (Nat.le_add_right _ _) (Nat.le_add_right _ _)
  simp only [isHigh, isLow, Bool.and_eq_false_iff, decide_eq_false_iff_not]
  omega

theorem joinSurrogates_head (c : CodePoint) (s : List CodePoint) :
    ∀ d ∈ (joinSurrogates (c :: s)).head?, isLow d = true → d = c := by
  intro d first low
  cases s with
  | nil => exact (Option.some.inj first).symm
  | cons e s =>
    rw [joinSurrogates] at first
    split at first
    · rename_i pair
      obtain rfl := Option.some.inj first
      rw [(join_astral pair.1).2] at low
      cases low
    · exact (Option.some.inj first).symm

theorem joined_joinSurrogates (s : List CodePoint) : Joined (joinSurrogates s) := by
  induction s using joinSurrogates.induct with
  | case1 high low s pair ih =>
    rw [joinSurrogates, dif_pos pair]
    refine List.isChain_cons.2 ⟨fun d _ still => ?_, ih⟩
    rw [(join_astral pair.1).1] at still
    cases still
  | case2 high low s apart ih =>
    rw [joinSurrogates, dif_neg apart]
    refine List.isChain_cons.2 ⟨fun d first isHigh => ?_, ih⟩
    by_contra isLow
    have isLow : PyJson.isLow d = true := by simpa using isLow
    have same := joinSurrogates_head low s d first isLow
    exact apart ⟨isHigh, same ▸ isLow⟩
  | case3 s short =>
    rw [joinSurrogates]
    · cases s with
      | nil => exact .nil
      | cons high s =>
        cases s with
        | nil => exact .singleton high
        | cons low s => exact (short high low s rfl).elim
    · exact short

theorem scanString_joined {t rest : Text} {s : List CodePoint} (h : scanString t = .ok (s, rest)) :
    Joined s := by
  unfold scanString at h
  split at h
  · cases h
    exact joined_joinSurrogates _
  · cases h

/-! ## Numbers -/

theorem ofDigitChars_lt {ds : List Char} (digits : ∀ c ∈ ds, c.isDigit = true) :
    Nat.ofDigitChars 10 ds 0 < 10 ^ ds.length := by
  induction ds using List.reverseRecOn with
  | nil => decide
  | append_singleton ds c ih =>
    have digit : c.toNat ≤ 57 := by
      have nine := digits c (by simp)
      rw [Char.isDigit, Bool.and_eq_true] at nine
      exact UInt32.le_iff_toNat_le.1 (of_decide_eq_true nine.2)
    have front := ih fun d hd => digits d (List.mem_append_left _ hd)
    rw [Nat.ofDigitChars_append, Nat.ofDigitChars_cons, Nat.ofDigitChars_nil, List.length_append,
      List.length_singleton, Nat.pow_succ]
    have zero : '0'.toNat = 48 := rfl
    omega

/-- The digits of a number are no more than the digits it was read from. -/
theorem length_toDigits_le {ds : List Char} (some_ : ds ≠ []) (digits : ∀ c ∈ ds, c.isDigit = true) :
    (Nat.toDigits 10 (Nat.ofDigitChars 10 ds 0)).length ≤ ds.length :=
  (Nat.length_toDigits_le_iff (by decide) (List.length_pos_of_ne_nil some_)).2 (ofDigitChars_lt digits)

theorem scanInteger_digits {t rest : Text} {ds : List Char} (h : scanInteger t = some (ds, rest)) :
    ds ≠ [] ∧ ∀ c ∈ ds, c.isDigit = true := by
  cases t with
  | nil => cases h
  | cons c t =>
    rw [scanInteger] at h
    split_ifs at h with zero digit
    · cases h
      simp
    · simp only [scanDigits, Option.some.injEq, Prod.mk.injEq] at h
      obtain ⟨rfl, -⟩ := h
      refine ⟨by simp [digit], fun d hd => List.mem_takeWhile_imp hd⟩

theorem scanMagnitude_exact {negative : Bool} {limit : Nat} {t rest : Text} {v : Value}
    (h : scanMagnitude negative t = .ok (v, rest)) : Exact limit v := by
  unfold scanMagnitude at h
  split at h
  · cases h
  · rename_i integer t' scanned
    obtain ⟨some_, digits⟩ := scanInteger_digits scanned
    simp only at h
    split at h
    · split at h
      rotate_left
      · cases h
      rename_i short
      cases h
      refine ⟨.int _, ?_⟩
      have shorter := Nat.le_trans (length_toDigits_le some_ digits) short
      cases negative <;> simp [dumps, shorter]
    · cases h
      exact ⟨.float _, by simp [dumps]⟩

/-! ## Lists and dictionaries -/

theorem isSome_mapM {α β : Type} {f : α → Option β} {xs : List α} (each : ∀ x ∈ xs, (f x).isSome) :
    (xs.mapM f).isSome := by
  induction xs with
  | nil => rfl
  | cons x xs ih =>
    obtain ⟨y, head⟩ := Option.isSome_iff_exists.1 (each x List.mem_cons_self)
    obtain ⟨ys, tail⟩ := Option.isSome_iff_exists.1 (ih fun x hx => each x (List.mem_cons_of_mem _ hx))
    rw [List.mapM_cons, head, tail]
    rfl

theorem exact_arr {limit : Nat} {elements : List Value} (each : ∀ v ∈ elements, Exact limit v) :
    Exact (limit + 1) (.arr elements) := by
  obtain ⟨ts, items⟩ := Option.isSome_iff_exists.1 (isSome_mapM fun v hv => (each v hv).2)
  refine ⟨.arr fun v hv => (each v hv).1, ?_⟩
  rw [dumps, items]
  rfl

theorem exact_obj {limit : Nat} {fields : List Field} (distinct : (fields.map (·.1)).Nodup)
    (each : ∀ f ∈ fields, Joined f.1 ∧ Exact limit f.2) : Exact (limit + 1) (.obj fields) := by
  have written : ∀ f ∈ fields, ((dumps limit f.2).bind fun value =>
      some (quote f.1 ++ ':' :: ' ' :: value)).isSome := fun f hf => by
    obtain ⟨t, value⟩ := Option.isSome_iff_exists.1 (each f hf).2.2
    rw [value]
    rfl
  obtain ⟨ts, items⟩ := Option.isSome_iff_exists.1 (isSome_mapM written)
  refine ⟨.obj distinct (fun f hf => (each f hf).1) fun f hf => (each f hf).2.1, ?_⟩
  simp only [dumps, Option.bind_eq_bind, items]
  rfl

theorem setField_distinct {fields : List Field} (distinct : (fields.map (·.1)).Nodup) (field : Field) :
    ((setField fields field).map (·.1)).Nodup := by
  unfold setField
  split
  · have same : (fields.map fun f => if f.1 = field.1 then field else f).map (·.1) =
        fields.map (·.1) := by
      rw [List.map_map]
      refine List.map_congr_left fun f _ => ?_
      by_cases key : f.1 = field.1 <;> simp [key]
    rwa [same]
  · rename_i new
    simp only [List.any_eq_true, decide_eq_true_eq, not_exists, not_and] at new
    rw [List.map_append, List.nodup_append]
    refine ⟨distinct, List.pairwise_singleton _ _, fun key hkey other hother => ?_⟩
    obtain ⟨f, hf, rfl⟩ := List.mem_map.1 hkey
    obtain rfl := List.mem_singleton.1 hother
    exact new f hf

theorem mem_setField {fields : List Field} {field f : Field} (h : f ∈ setField fields field) :
    f ∈ fields ∨ f = field := by
  unfold setField at h
  split at h
  · obtain ⟨g, hg, rfl⟩ := List.mem_map.1 h
    split
    · exact .inr rfl
    · exact .inl hg
  · exact (List.mem_append.1 h).imp id List.mem_singleton.1

theorem exact_dictionary {limit : Nat} {fields : List Field}
    (each : ∀ f ∈ fields, Joined f.1 ∧ Exact limit f.2) : Exact (limit + 1) (dictionary fields) := by
  suffices go : ∀ done : List Field, (done.map (·.1)).Nodup →
      (∀ f ∈ done, Joined f.1 ∧ Exact limit f.2) → Exact (limit + 1) (.obj (fields.foldl setField done)) by
    exact go [] List.nodup_nil (by simp)
  induction fields with
  | nil => exact fun done distinct => exact_obj distinct
  | cons field fields ih =>
    intro done distinct exact_
    refine ih (fun f hf => each f (List.mem_cons_of_mem _ hf)) _ (setField_distinct distinct field) ?_
    intro f hf
    obtain old | rfl := mem_setField hf
    · exact exact_ f old
    · exact each _ List.mem_cons_self

/-! ## The scanner -/

theorem scanItems_all {α : Type} {close : Char} {scan : Text → Result (α × Text)} {P : α → Prop}
    (each : ∀ t item rest, scan t = .ok (item, rest) → P item) {fuel : Nat} {t rest : Text}
    {items : List α} (h : scanItems close scan fuel t = .ok (items, rest)) : ∀ x ∈ items, P x := by
  induction fuel generalizing t items rest with
  | zero => cases h
  | succ fuel ih =>
    simp only [scanItems, bind, Except.bind] at h
    split at h
    · cases h
    · rename_i r first
      split at h
      · cases h
      · split_ifs at h
        · cases h
          simpa using each _ _ _ first
        · split at h
          · cases h
          · rename_i r' others
            cases h
            exact List.forall_mem_cons.2 ⟨each _ _ _ first, ih others⟩

theorem scanField_exact {limit : Nat} {scan : Text → Result (Value × Text)}
    (value : ∀ t v rest, scan t = .ok (v, rest) → Exact limit v) {t rest : Text} {field : Field}
    (h : scanField scan t = .ok (field, rest)) : Joined field.1 ∧ Exact limit field.2 := by
  unfold scanField at h
  split at h
  · simp only [bind, Except.bind] at h
    split at h
    · cases h
    · rename_i r key
      split at h
      · split at h
        · cases h
        · rename_i r' scanned
          cases h
          exact ⟨scanString_joined key, value _ _ _ scanned⟩
      · cases h
  · cases h

theorem scanLiteral_exact {limit : Nat} {t rest : Text} {v : Value}
    (h : scanLiteral t = some (v, rest)) : Exact limit v := by
  obtain ⟨⟨word, u⟩, known, found⟩ := List.exists_of_findSome?_eq_some h
  simp only [Option.ite_none_right_eq_some, Option.some.injEq, Prod.mk.injEq] at found
  obtain ⟨-, rfl, -⟩ := found
  simp only [literals, List.mem_cons, Prod.mk.injEq, List.not_mem_nil, or_false] at known
  obtain ⟨-, rfl⟩ | ⟨-, rfl⟩ | ⟨-, rfl⟩ | ⟨-, rfl⟩ | ⟨-, rfl⟩ | ⟨-, rfl⟩ := known
  · exact ⟨.null, by simp [dumps]⟩
  · exact ⟨.bool _, by simp [dumps]⟩
  · exact ⟨.bool _, by simp [dumps]⟩
  all_goals exact ⟨.float _, by simp [dumps]⟩

theorem scanWith_exact {limit : Nat} {array object : Text → Result (Value × Text)}
    (arrays : ∀ t v rest, array t = .ok (v, rest) → Exact limit v)
    (objects : ∀ t v rest, object t = .ok (v, rest) → Exact limit v) {t rest : Text} {v : Value}
    (h : scanWith array object t = .ok (v, rest)) : Exact limit v := by
  unfold scanWith at h
  split at h
  · cases scanned : scanString _ with
    | error e => rw [scanned] at h; cases h
    | ok r =>
      rw [scanned] at h
      cases h
      exact ⟨.str (scanString_joined scanned), by simp [dumps]⟩
  · exact arrays _ _ _ h
  · exact objects _ _ _ h
  · split at h
    · rename_i literal
      cases h
      exact scanLiteral_exact literal
    · unfold scanNumber at h
      split at h <;> exact scanMagnitude_exact h

theorem scanOnce_exact {limit : Nat} {t rest : Text} {v : Value}
    (h : scanOnce limit t = .ok (v, rest)) : Exact limit v := by
  induction limit generalizing t v rest with
  | zero => exact scanWith_exact (fun _ _ _ none => by cases none) (fun _ _ _ none => by cases none) h
  | succ limit ih =>
    refine scanWith_exact (fun t v rest h => ?_) (fun t v rest h => ?_) h
    · unfold scanArray at h
      split at h
      · cases h
        exact exact_arr (by simp)
      · cases scanned : scanItems ']' (scanOnce limit) _ _ with
        | error e => rw [scanned] at h; cases h
        | ok r =>
          rw [scanned] at h
          cases h
          exact exact_arr (scanItems_all (fun _ _ _ => ih) scanned)
    · unfold scanObject at h
      split at h
      · cases h
        exact exact_obj List.nodup_nil (by simp)
      · cases scanned : scanItems '}' (scanField (scanOnce limit)) _ _ with
        | error e => rw [scanned] at h; cases h
        | ok r =>
          rw [scanned] at h
          cases h
          exact exact_dictionary (scanItems_all (fun _ _ _ => scanField_exact fun _ _ _ => ih) scanned)

/-- What `json.loads` returns `json.dumps` writes, for `json.loads` to return it again. -/
theorem loads_exact {limit : Nat} {t : Text} {v : Value} (h : loads limit t = .ok v) :
    ∃ u, dumps limit v = some u ∧ loads limit u = .ok v := by
  unfold loads at h
  split_ifs at h
  simp only [bind, Except.bind] at h
  split at h
  · cases h
  · rename_i r scanned
    split_ifs at h
    cases h
    obtain ⟨plain, written⟩ := scanOnce_exact scanned
    obtain ⟨u, writes⟩ := Option.isSome_iff_exists.1 written
    exact ⟨u, writes, loads_dumps plain writes⟩

end PyJson
