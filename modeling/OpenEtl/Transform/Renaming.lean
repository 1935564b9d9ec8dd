import OpenEtl.Transform.InPlace

/-!
# Renaming (`transform/builtin.go:222-258, 338-346`)

`rename` moves one field after the other within the map of the record, `project` copies them from that map into a new
one; here `project` ends with its mappings. Go goes through the mappings in any order.
-/

namespace OpenEtl.InPlace

open List

structure Mappings where
  entries : List (String × String)
  sources_nodup : (entries.map Prod.fst).Nodup
  targets_nodup : (entries.map Prod.snd).Nodup

def rename (order : List (String × String)) (d : Data) : Data := order.foldl (fun d e => (Rule.move e.1 e.2).run d) d

def copyFields (d : Data) (fields : List String) (projected : Data) : Data :=
  fields.foldl (fun out f => (Rule.assign f fun _ => d.get? f).run out) projected

def copyMapped (keepUnmapped : Bool) (d : Data) : List (String × String) → Data → Data
  | [], projected => projected
  | (source, target) :: rest, projected =>
    match d.get? source with
    | none => copyMapped keepUnmapped d rest projected
    | some v =>
      copyMapped keepUnmapped d rest
        ((if keepUnmapped && source ≠ target then projected.erase source else projected).set target v)

def project (fields : List String) (keepUnmapped : Bool) (order : List (String × String)) (d : Data) : Data :=
  copyMapped keepUnmapped d order (copyFields d fields (if keepUnmapped then d else []))

/-- Each target holds what its source held; every other field is as in `rest`. -/
def Simultaneous (entries : List (String × String)) (d : Data) (rest : String → Option Value) (d' : Data) : Prop :=
  (∀ e ∈ entries, ∀ v, d.get? e.1 = some v → d'.get? e.2 = some v) ∧
  ∀ f, (∀ e ∈ entries, e.2 = f → d.get? e.1 = none) → d'.get? f = rest f

/-- No field of the record is renamed to what is to be renamed. -/
def Apart (entries : List (String × String)) (d : Data) : Prop :=
  ∀ e ∈ entries, (d.get? e.1).isSome → e.1 ≠ e.2 → ∀ e' ∈ entries, e'.1 ≠ e.2

/-- What stays when the sources are taken out, if they are. -/
def unmapped (taken : Bool) (entries : List (String × String)) (d : Data) (f : String) : Option Value :=
  if taken ∧ ∃ e ∈ entries, e.1 = f then none else d.get? f

variable {d : Data} {keep : Bool} {e x : String × String} {l : List (String × String)} {out : Data} {f : String} {v : Value}

theorem unmapped_cons : unmapped keep (e :: l) d f = if keep ∧ e.1 = f then none else unmapped keep l d f := by
  by_cases hk : keep = true ∧ e.1 = f
  · rw [if_pos hk, unmapped, if_pos ⟨hk.1, e, mem_cons_self, hk.2⟩]
  · rw [if_neg hk]
    exact if_congr (by simp [-not_and, hk, and_or_left]) rfl rfl

theorem Apart.tail (h : Apart (e :: l) d) : Apart l d := fun x hx hsome hne x' hx' =>
  h x (mem_cons_of_mem e hx) hsome hne x' (mem_cons_of_mem e hx')

theorem Apart.ne (h : Apart (e :: l) d) (hsrc : ((e :: l).map Prod.fst).Nodup) (hx : x ∈ l) (hv : d.get? e.1 = some v) :
    x.1 ≠ e.1 ∧ x.1 ≠ e.2 := by
  have hne : x.1 ≠ e.1 := fun heq => (nodup_cons.mp hsrc).1 (heq ▸ mem_map_of_mem hx)
  by_cases heq : e.1 = e.2
  · exact ⟨hne, heq ▸ hne⟩
  · exact ⟨hne, h e mem_cons_self (by simp [hv]) heq x (mem_cons_of_mem e hx)⟩

theorem get?_moved (hf : f ≠ e.2) : ((if keep && e.1 ≠ e.2 then out.erase e.1 else out).set e.2 v).get? f =
    if keep ∧ e.1 = f then none else out.get? f := by
  rw [Data.get?_set, if_neg hf]
  by_cases hfe : e.1 = f
  · subst hfe
    cases keep <;> simp [hf, Data.get?_erase]
  · split <;> simp [hfe, Ne.symm hfe, Data.get?_erase]

theorem Apart.read (h : Apart (e :: l) d) (hsrc : ((e :: l).map Prod.fst).Nodup) (hx : x ∈ l) (hv : d.get? e.1 = some v) :
    ((if keep && e.1 ≠ e.2 then out.erase e.1 else out).set e.2 v).get? x.1 = out.get? x.1 := by
  obtain ⟨hone, htwo⟩ := h.ne hsrc hx hv
  rw [get?_moved htwo, if_neg fun h => hone h.2.symm]

theorem copyMapped_spec : ∀ {l : List (String × String)} {out : Data}, (l.map Prod.fst).Nodup → (l.map Prod.snd).Nodup →
    (keep = true → Apart l d ∧ ∀ e ∈ l, out.get? e.1 = d.get? e.1) →
      Simultaneous l d (unmapped keep l out) (copyMapped keep d l out)
  | [], _, _, _, _ => ⟨by simp, fun f _ => by simp [unmapped, copyMapped]⟩
  | e :: l, out, hsrc, htgt, hkeep => by
    obtain ⟨hnew, htgt'⟩ := nodup_cons.mp htgt
    have hsrc' := (nodup_cons.mp hsrc).2
    unfold copyMapped
    cases hv : d.get? e.1 with
    | none =>
      obtain ⟨hto, hother⟩ := copyMapped_spec hsrc' htgt' fun hk =>
        ⟨(hkeep hk).1.tail, fun x hx => (hkeep hk).2 x (mem_cons_of_mem e hx)⟩
      refine ⟨by simpa [hv] using hto, fun f hf => (hother f fun x hx => hf x (mem_cons_of_mem e hx)).trans ?_⟩
      rw [unmapped_cons]
      split
      next hk => rw [unmapped, ← hk.2, (hkeep hk.1).2 e mem_cons_self, hv, ite_self]
      · rfl
    | some v =>
      obtain ⟨hto, hother⟩ := copyMapped_spec hsrc' htgt' fun hk => ⟨(hkeep hk).1.tail, fun x hx =>
        ((hkeep hk).1.read hsrc hx hv).trans ((hkeep hk).2 x (mem_cons_of_mem e hx))⟩
      refine ⟨fun x hx w hw => ?_, fun f hf => ?_⟩
      · rcases mem_cons.mp hx with rfl | hx
        · rw [hother x.2 fun y hy heq => absurd (heq ▸ mem_map_of_mem hy) hnew, unmapped, if_neg, Data.get?_set, if_pos rfl,
            ← hv, hw]
          rintro ⟨hk, y, hy, heq⟩
          exact ((hkeep hk).1.ne hsrc hy hv).2 heq
        · exact hto x hx w hw
      · have hne : f ≠ e.2 := fun heq => by simpa [hv] using hf e mem_cons_self heq.symm
        rw [hother f fun x hx => hf x (mem_cons_of_mem e hx), unmapped, get?_moved hne, unmapped_cons, unmapped]
        by_cases hk : keep = true ∧ e.1 = f
        · rw [if_pos hk, if_pos hk, ite_self]
        · rw [if_neg hk, if_neg hk]

theorem rename_cons : rename (e :: l) out =
    rename l (match out.get? e.1 with | some v => (out.erase e.1).set e.2 v | none => out) := rfl

/-- Renaming in place reads what was there at the start. -/
theorem rename_eq_copyMapped : ∀ {l : List (String × String)} {out : Data}, (l.map Prod.fst).Nodup → Apart l d →
    (∀ e ∈ l, out.get? e.1 = d.get? e.1) → rename l out = copyMapped true d l out
  | [], _, _, _, _ => rfl
  | e :: l, out, hsrc, hapart, hout => by
    have hsrc' := (nodup_cons.mp hsrc).2
    have htail := fun x hx => hout x (mem_cons_of_mem e hx)
    rw [rename_cons, hout e mem_cons_self]
    unfold copyMapped
    cases hv : d.get? e.1 with
    | none => exact rename_eq_copyMapped hsrc' hapart.tail htail
    | some v =>
      have hset : (out.erase e.1).set e.2 v = (if true && e.1 ≠ e.2 then out.erase e.1 else out).set e.2 v := by
        by_cases heq : e.1 = e.2 <;> simp [heq, Data.set, Data.erase]
      simp only [hset]
      exact rename_eq_copyMapped hsrc' hapart.tail fun x hx => (hapart.read hsrc hx hv).trans (htail x hx)

/-- A field that is gone comes back only as a target. -/
theorem rename_gone : ∀ {l : List (String × String)} {out : Data}, (∀ e ∈ l, e.2 ≠ f) → out.get? f = none →
    (rename l out).get? f = none
  | [], _, _, h => h
  | e :: l, out, hne, h => by
    rw [rename_cons]
    refine rename_gone (fun x hx => hne x (mem_cons_of_mem e hx)) ?_
    split
    · rw [Data.get?_set, if_neg (hne e mem_cons_self).symm, Data.get?_erase, h, ite_self]
    · exact h

theorem get?_copyFields : ∀ (fields : List String) (out : Data),
    (copyFields d fields out).get? f = if f ∈ fields then (d.get? f).or (out.get? f) else out.get? f
  | [], _ => rfl
  | g :: fields, out => by
    refine (get?_copyFields fields _).trans ?_
    by_cases hfg : f = g
    · subst hfg
      cases hv : d.get? f <;> simp [Rule.run, hv, Data.get?_set]
    · cases hv : d.get? g <;> simp [Rule.run, hv, Data.get?_set, hfg]

/-- **Renaming is simultaneous**, in every order, exactly if no field of the record is renamed to what is to be renamed. -/
theorem renaming_simultaneous_iff (m : Mappings) (d : Data) :
    (∀ order, order.Perm m.entries → Simultaneous m.entries d (unmapped true m.entries d) (rename order d) ∧
      ∀ fields, ∀ keep : Bool, Simultaneous m.entries d
        (fun f => if keep ∨ f ∈ fields then unmapped keep m.entries d f else none) (project fields keep order d)) ↔
    Apart m.entries d := by
  constructor
  · intro h e he hsome hne e' he' hsource
    obtain ⟨v, hv⟩ := Option.isSome_iff_exists.mp hsome
    -- first `e`, then `e'`, which takes the target of `e` away
    have hother : e' ≠ e := by rintro rfl; exact hne hsource
    have hperm := (perm_cons_erase he).trans ((perm_cons_erase ((mem_erase_of_ne hother).mpr he')).cons e)
    have hnd := (nodup_cons.mp ((hperm.map Prod.snd).nodup_iff.mp m.targets_nodup)).1
    have htarget := (h _ hperm.symm).1.1 e he v hv
    rw [rename_cons, hv, rename_cons, hsource, Data.get?_set, if_pos rfl, rename_gone] at htarget
    · cases htarget
    · exact fun x hx heq => hnd (heq ▸ mem_map_of_mem (mem_cons_of_mem _ hx))
    · have hne' : e.2 ≠ e'.2 := fun heq => hnd (heq ▸ mem_cons_self)
      rw [Data.get?_set, if_neg hne', Data.get?_erase, if_pos rfl]
  · intro hapart order hperm
    have hsrc := (hperm.map Prod.fst).nodup_iff.mpr m.sources_nodup
    have htgt := (hperm.map Prod.snd).nodup_iff.mpr m.targets_nodup
    have hapart' : Apart order d := by simpa only [Apart, hperm.mem_iff] using hapart
    have hsim {keep out rest} (h : Simultaneous order d (unmapped keep order out) rest) :
        Simultaneous m.entries d (unmapped keep m.entries out) rest := by
      simpa only [Simultaneous, unmapped, hperm.mem_iff] using h
    refine ⟨?_, fun fields keep => ?_⟩
    · rw [rename_eq_copyMapped hsrc hapart' fun _ _ => rfl]
      exact hsim (copyMapped_spec hsrc htgt fun _ => ⟨hapart', fun _ _ => rfl⟩)
    · have hout (f) : (copyFields d fields (if keep then d else [])).get? f =
          if keep ∨ f ∈ fields then d.get? f else none := by
        rw [get?_copyFields]
        cases keep with
        | false => simp [show Data.get? [] f = none from rfl]
        | true => simp
      have hspec := hsim (copyMapped_spec hsrc htgt fun hk => ⟨hapart', fun e _ => by rw [hout, if_pos (.inl hk)]⟩)
      refine ⟨hspec.1, fun f hf => (hspec.2 f hf).trans ?_⟩
      simp only [unmapped, hout]
      split_ifs <;> rfl

def swap : List (String × String) := [("a", "b"), ("b", "a")]

def pair : Data := [("a", .int64 1), ("b", .int64 2)]

theorem swap_loses_field : (swap.map Prod.fst).Nodup ∧ (swap.map Prod.snd).Nodup ∧
    (rename swap pair).get? "b" = none ∧ (rename swap.reverse pair).get? "a" = none ∧
    ¬Simultaneous swap pair (unmapped true swap pair) (rename swap pair) :=
  ⟨by decide, by decide, by decide, by decide, fun h =>
    absurd (h.1 ("a", "b") (by decide) (.int64 1) (by decide)) (by decide)⟩

end OpenEtl.InPlace
