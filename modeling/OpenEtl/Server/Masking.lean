import OpenEtl.Lib.ConfigTree

/-!
# Masking of secrets in responses

The two maskers of server/secrets.go, `maskConfigSecrets` (34-112) for specs and `maskSecretMap` (114-150) for the
catalog of connections. Both go through a configuration in one way and differ in what they put in the place of a
secret.
-/

namespace OpenEtl.Masking

open ConfigTree

/-- `"****"`. -/
def stars : List UInt8 := List.replicate 4 42

def maskString (s : List UInt8) : List UInt8 :=
  if s.length ≤ 2 then stars else s.take 1 ++ stars ++ s.drop (s.length - 1)

/-- What `maskConfigSecrets` shows of a secret. -/
def specMask : ConfigValue → ConfigValue
  | .leaf (.str []) => .leaf (.str [])
  | .leaf (.str s) => .leaf (.str (maskString s))
  | .leaf .null => .leaf .null
  | _ => .leaf (.str stars)

/-- What `maskSecretMap` shows of a secret. -/
def catalogMask : ConfigValue → ConfigValue
  | .leaf (.str []) => .leaf (.str [])
  | .leaf (.str _) => .leaf (.str (List.replicate 6 42))
  | v => v

section
variable (isSecret : String → Bool) (hide : ConfigValue → ConfigValue)

mutual
def mask : ConfigValue → ConfigValue
  | .leaf a => .leaf a
  | .node m cs => .node m (maskAll m cs)

-- A member of a map is hidden or entered; of the items of a list the maps are entered.
def maskAll (inMap : Bool) : ConfigMap → ConfigMap
  | [] => []
  | (k, v) :: cs =>
    (k, if inMap && isSecret k then hide v else if inMap || v.isMap then mask v else v) :: maskAll inMap cs
end

def maskConfigSecrets (cfg : ConfigMap) : ConfigMap := maskAll isSecret specMask true cfg

def maskSecretMap (cfg : ConfigMap) : ConfigMap := maskAll isSecret catalogMask true cfg

end

/-! ## Two configurations that differ in their secrets -/

/-- Two secrets of one kind: texts longer than two bytes with the same first and last byte, numbers, maps, lists. -/
def SameKind : ConfigValue → ConfigValue → Prop
  | .leaf (.str s), .leaf (.str t) => 2 < s.length ∧ 2 < t.length ∧ s.head? = t.head? ∧ s.getLast? = t.getLast?
  | .leaf (.num _), .leaf (.num _) | .leaf (.bool _), .leaf (.bool _) => True
  | .node m _, .node m' _ => m = m'
  | _, _ => False

section
variable (isSecret : String → Bool)

mutual
/-- The same but for values under secret keys, at any depth. -/
def Alike : ConfigValue → ConfigValue → Prop
  | .leaf a, .leaf b => a = b
  | .node m cs, .node m' ds => m = m' ∧ AlikeAll m cs ds
  | _, _ => False

def AlikeAll (inMap : Bool) : ConfigMap → ConfigMap → Prop
  | [], [] => True
  | (k, v) :: cs, (k', w) :: ds =>
    k = k' ∧ (if inMap && isSecret k then SameKind v w else Alike v w) ∧ AlikeAll inMap cs ds
  | _, _ => False
end

mutual
/-- The lists inside lists are the same, and `shown` holds of every two secrets outside of them. -/
def Agree (shown : ConfigValue → ConfigValue → Prop) : ConfigValue → ConfigValue → Prop
  | .node m cs, .node _ ds => AgreeAll shown m cs ds
  | _, _ => True

def AgreeAll (shown : ConfigValue → ConfigValue → Prop) (inMap : Bool) : ConfigMap → ConfigMap → Prop
  | (k, v) :: cs, (_, w) :: ds =>
    (if inMap && isSecret k then shown v w else if inMap || v.isMap then Agree shown v w else v = w) ∧
      AgreeAll shown inMap cs ds
  | _, _ => True
end

variable {isSecret}

theorem Alike.isMap_eq {v w : ConfigValue} (h : Alike isSecret v w) : w.isMap = v.isMap := by
  cases v <;> cases w <;> simp_all [Alike, isMap]

mutual
variable {shown : ConfigValue → ConfigValue → Prop}

theorem mask_eq_iff {hide : ConfigValue → ConfigValue}
    (hshown : ∀ v w, SameKind v w → (hide v = hide w ↔ shown v w)) : ∀ v w : ConfigValue, Alike isSecret v w →
    (mask isSecret hide v = mask isSecret hide w ↔ Agree isSecret shown v w)
  | .leaf a, .leaf b, h => by simp_all [Alike, Agree]
  | .node m cs, .node m' ds, h => by
    obtain ⟨rfl, h⟩ := h
    simp [mask, Agree, maskAll_eq_iff hshown m cs ds h]
  | .leaf a, .node m cs, h | .node m cs, .leaf a, h => by simp [Alike] at h

theorem maskAll_eq_iff {hide : ConfigValue → ConfigValue}
    (hshown : ∀ v w, SameKind v w → (hide v = hide w ↔ shown v w)) : ∀ (inMap : Bool) (cs ds : ConfigMap),
    AlikeAll isSecret inMap cs ds →
    (maskAll isSecret hide inMap cs = maskAll isSecret hide inMap ds ↔ AgreeAll isSecret shown inMap cs ds)
  | _, [], [], _ => by simp [AgreeAll]
  | inMap, (k, v) :: cs, (k', w) :: ds, h => by
    obtain ⟨rfl, hv, hcs⟩ := h
    rw [maskAll, maskAll, AgreeAll, List.cons.injEq, maskAll_eq_iff hshown inMap cs ds hcs]
    by_cases hk : (inMap && isSecret k) = true
    · rw [if_pos hk] at hv
      simp [hk, hshown v w hv]
    · rw [if_neg hk] at hv
      by_cases hm : (inMap || v.isMap) = true
      · simp [hk, hm, hv.isMap_eq, mask_eq_iff hshown v w hv]
      · simp [hk, hm, hv.isMap_eq]
  | _, [], _ :: _, h | _, _ :: _, [], h => by simp [AlikeAll] at h
end

end

theorem maskString_of_long {s : List UInt8} (h : 2 < s.length) :
    maskString s = s.head?.toList ++ stars ++ s.getLast?.toList := by
  have hne : s ≠ [] := by rintro rfl; simp at h
  obtain ⟨l, b, rfl⟩ := List.eq_nil_or_concat s |>.resolve_left hne
  have hlen : ¬ l.length ≤ 1 := by simp at h; omega
  simp [maskString, List.take_one, hlen]

theorem specMask_eq {v w : ConfigValue} (h : SameKind v w) : specMask v = specMask w := by
  unfold SameKind at h
  split at h
  · rename_i s t
    obtain ⟨hs, ht, hfirst, hlast⟩ := h
    cases s <;> cases t <;> simp_all [specMask, maskString_of_long]
  all_goals simp_all [specMask]

/-- One text is shown for every text, and of everything else the value. -/
def CatalogShown (v w : ConfigValue) : Prop := v ≠ w → ∃ s, v = .leaf (.str s)

theorem catalogMask_eq_iff {v w : ConfigValue} (h : SameKind v w) : catalogMask v = catalogMask w ↔ CatalogShown v w := by
  unfold SameKind at h
  split at h
  · rename_i s t
    cases s <;> cases t <;> simp_all [catalogMask, CatalogShown]
  all_goals simp_all [catalogMask, CatalogShown]

/-- Of two configurations that differ in secrets of one kind alone, `maskConfigSecrets` makes one response exactly when
the lists inside lists are the same, and `maskSecretMap` when in addition the secrets that are not texts are. -/
theorem masks_eq_iff (isSecret : String → Bool) (a b : ConfigMap) (h : AlikeAll isSecret true a b) :
    (maskConfigSecrets isSecret a = maskConfigSecrets isSecret b ↔ AgreeAll isSecret (fun _ _ => True) true a b) ∧
      (maskSecretMap isSecret a = maskSecretMap isSecret b ↔ AgreeAll isSecret CatalogShown true a b) :=
  ⟨maskAll_eq_iff (fun _ _ hk => iff_true_intro (specMask_eq hk)) true a b h,
    maskAll_eq_iff (fun _ _ hk => catalogMask_eq_iff hk) true a b h⟩

/-- Two passwords in an item of a list. -/
theorem masks_of_texts :
    maskConfigSecrets (· == "token") [("hosts", .list [.map [("token", .leaf (.str [97, 98, 99]))]])] =
        maskConfigSecrets (· == "token") [("hosts", .list [.map [("token", .leaf (.str [97, 100, 99]))]])] ∧
      maskSecretMap (· == "token") [("hosts", .list [.map [("token", .leaf (.str [97, 98, 99]))]])] =
        maskSecretMap (· == "token") [("hosts", .list [.map [("token", .leaf (.str [97, 100, 99]))]])] :=
  have h := masks_eq_iff (· == "token") [("hosts", .list [.map [("token", .leaf (.str [97, 98, 99]))]])]
    [("hosts", .list [.map [("token", .leaf (.str [97, 100, 99]))]])] (by simp [AlikeAll, Alike, SameKind])
  ⟨h.1.mpr (by simp [AgreeAll, Agree, isMap]),
    h.2.mpr (by simp [AgreeAll, Agree, isMap, CatalogShown])⟩

/-- Both maskers show a password inside a list of lists, and the catalog shows a secret number. -/
theorem masks_differ : (∃ a b : ConfigMap, AlikeAll (· == "token") true a b ∧
      maskConfigSecrets (· == "token") a ≠ maskConfigSecrets (· == "token") b ∧
      maskSecretMap (· == "token") a ≠ maskSecretMap (· == "token") b) ∧
    ∃ m n : String, AlikeAll (· == "token") true [("token", .leaf (.num m))] [("token", .leaf (.num n))] ∧
      maskSecretMap (· == "token") [("token", .leaf (.num m))] ≠ maskSecretMap (· == "token") [("token", .leaf (.num n))] := by
  refine ⟨⟨[("hosts", .list [.list [.map [("token", .leaf (.str [97, 98, 99]))]]])],
    [("hosts", .list [.list [.map [("token", .leaf (.str [97, 100, 99]))]]])], ?_⟩, "1", "2", ?_⟩
  all_goals simp [AlikeAll, Alike, SameKind, maskConfigSecrets, maskSecretMap, maskAll, mask, catalogMask, isMap]

end OpenEtl.Masking
