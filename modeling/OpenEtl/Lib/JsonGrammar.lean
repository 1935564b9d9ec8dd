import OpenEtl.Lib.Json

/-!
# The grammar of JSON

`IsValue` says of a text which value it is, without a reader. `decode_eq_some_iff`: the reader takes exactly the texts of
the grammar, each as its value.
-/

namespace OpenEtl.Json

open List

def Blank (cs : List Char) : Prop := ∀ c ∈ cs, isSpace c = true

/-- What stands between the quotes of a string, and the code units it is for. -/
inductive IsUnits : List Char → List Nat → Prop
  | nil : IsUnits [] []
  | plain {c cs us} : c ≠ '"' → c ≠ '\\' → ¬c.toNat < 0x20 → IsUnits cs us → IsUnits (c :: cs) (c.toNat :: us)
  | escaped {e c cs us} : simpleEscape e = some c → IsUnits cs us → IsUnits ('\\' :: e :: cs) (c.toNat :: us)
  | hex {a b c d w x y z cs us} : hexVal a = some w → hexVal b = some x → hexVal c = some y → hexVal d = some z →
      IsUnits cs us → IsUnits ('\\' :: 'u' :: a :: b :: c :: d :: cs) (((w * 16 + x) * 256 + y * 16 + z) :: us)

def ofUnitList (us : List Nat) : String := String.ofList (ofUnits us)

/-- The text of a part of a document with white space around it. -/
structure Part (α : Type) where
  before : List Char
  text : List Char
  after : List Char
  value : α

def Part.chars {α : Type} (p : Part α) : List Char := p.before ++ (p.text ++ p.after)

def Part.Spaced {α : Type} (p : Part α) : Prop := Blank p.before ∧ Blank p.after

/-- A member of an object: its name in quotes, a colon and its value. -/
inductive IsMember (P : List Char → Json → Prop) : List Char → String × Json → Prop
  | intro {name us gap before text x} : IsUnits name us → Blank gap → Blank before → P text x →
      IsMember P ('"' :: (name ++ '"' :: (gap ++ ':' :: (before ++ text)))) (ofUnitList us, x)

inductive IsValue : List Char → Json → Prop
  | null : IsValue "null".toList .null
  | bool_true : IsValue "true".toList (.bool true)
  | bool_false : IsValue "false".toList (.bool false)
  | num {text} : validNumber text = true → IsValue text (.num text)
  | str {cs us} : IsUnits cs us → IsValue ('"' :: (cs ++ ['"'])) (.str (ofUnitList us))
  | arr_nil {cs} : Blank cs → IsValue ('[' :: (cs ++ [']'])) (.arr [])
  | arr {items : List (Part Json)} : items ≠ [] → (∀ i ∈ items, i.Spaced) → (∀ i ∈ items, IsValue i.text i.value) →
      IsValue ('[' :: (listed (items.map Part.chars) ++ [']'])) (.arr (items.map Part.value))
  | obj_nil {cs} : Blank cs → IsValue ('\x7b' :: (cs ++ ['\x7d'])) (.obj [])
  | obj {ms : List (Part (String × Json))} : ms ≠ [] → (∀ m ∈ ms, m.Spaced) →
      (∀ m ∈ ms, IsMember IsValue m.text m.value) →
      IsValue ('\x7b' :: (listed (ms.map Part.chars) ++ ['\x7d'])) (.obj (ms.map Part.value))

/-! ## What is read is in the grammar -/

variable {cs rest : List Char} {us : List Nat}

theorem skipSpace_split (cs : List Char) : ∃ ws, Blank ws ∧ cs = ws ++ skipSpace cs :=
  ⟨cs.takeWhile isSpace, fun _ hc => mem_takeWhile_imp hc, (takeWhile_append_dropWhile).symm⟩

theorem units_sound (h : units cs = some (us, rest)) : ∃ body, cs = body ++ '"' :: rest ∧ IsUnits body us := by
  induction cs using units.induct generalizing us with
  | case1 => simp [units] at h
  | case2 cs =>
    obtain ⟨rfl, rfl⟩ := Prod.mk.inj (Option.some.inj h)
    exact ⟨[], rfl, .nil⟩
  | case3 a b c d cs ih =>
    simp only [units, Option.bind_eq_bind, Option.bind_eq_some_iff, Option.pure_def, Option.some.injEq,
      Prod.mk.injEq] at h
    obtain ⟨w, hw, x, hx, y, hy, z, hz, ⟨us', rest'⟩, hus, rfl, rfl⟩ := h
    obtain ⟨body, rfl, hbody⟩ := ih hus
    exact ⟨_, rfl, .hex hw hx hy hz hbody⟩
  | case4 e cs hu ih =>
    rw [units] at h
    · simp only [Option.bind_eq_bind, Option.bind_eq_some_iff, Option.pure_def, Option.some.injEq,
        Prod.mk.injEq] at h
      obtain ⟨c, hc, ⟨us', rest'⟩, hus, rfl, rfl⟩ := h
      obtain ⟨body, rfl, hbody⟩ := ih hus
      exact ⟨_, rfl, .escaped hc hbody⟩
    · exact hu
  | case5 c cs hquote hu hescape hcontrol ih =>
    rw [units] at h
    · simp [hcontrol] at h
    all_goals assumption
  | case6 c cs hquote hu hescape hcontrol ih =>
    rw [units] at h
    · simp only [hcontrol, if_false, Option.bind_eq_bind, Option.pure_def,
        Option.bind_eq_some_iff, Option.some.injEq, Prod.mk.injEq] at h
      obtain ⟨⟨us', rest'⟩, hus, rfl, rfl⟩ := h
      have hback : c ≠ '\\' := by
        rintro rfl
        cases cs with
        | nil => simp [units] at hus
        | cons e cs => exact hescape e cs rfl rfl
      obtain ⟨body, rfl, hbody⟩ := ih hus
      exact ⟨_, rfl, .plain hquote hback hcontrol hbody⟩
    all_goals assumption

theorem string_sound {s : String} (h : string cs = some (s, rest)) :
    ∃ body us, cs = body ++ '"' :: rest ∧ IsUnits body us ∧ s = ofUnitList us := by
  obtain ⟨⟨us, rest'⟩, hus, heq⟩ := Option.map_eq_some_iff.mp h
  obtain ⟨rfl, rfl⟩ := Prod.mk.inj heq
  obtain ⟨body, rfl, hbody⟩ := units_sound hus
  exact ⟨body, us, rfl, hbody, rfl⟩

section

variable {α : Type} {part : List Char → Option (α × List Char)} {close : Char} {P : List Char → α → Prop}

/-- What the reader takes is white space and the text of the part. -/
def Sound (part : List Char → Option (α × List Char)) (P : List Char → α → Prop) : Prop :=
  ∀ cs x rest, part cs = some (x, rest) → ∃ before text, cs = before ++ (text ++ rest) ∧ Blank before ∧ P text x

theorem listed_cons (cs : List Char) {css : List (List Char)} (h : css ≠ []) :
    listed (cs :: css) = cs ++ ',' :: listed css := by
  cases css with
  | nil => exact absurd rfl h
  | cons _ _ => rfl

theorem append_listed (ws cs : List Char) (css : List (List Char)) :
    ws ++ listed (cs :: css) = listed ((ws ++ cs) :: css) := by
  cases css with
  | nil => rfl
  | cons _ _ => simp [listed]

/-- The parts that are read; white space in front of them belongs to the first one. -/
theorem parts_sound (hpart : Sound part P) {n : Nat} {xs : List α} {ws : List Char} (hws : Blank ws)
    (h : parts part close n cs = some (xs, rest)) :
    ∃ ps : List (Part α), ps ≠ [] ∧ (∀ p ∈ ps, p.Spaced) ∧ (∀ p ∈ ps, P p.text p.value) ∧
      ws ++ cs = listed (ps.map Part.chars) ++ close :: rest ∧ ps.map Part.value = xs := by
  induction n generalizing cs ws xs with
  | zero => simp [parts] at h
  | succ n ih =>
    simp only [parts, Option.bind_eq_bind, Option.bind_eq_some_iff] at h
    obtain ⟨⟨x, cs'⟩, hx, h⟩ := h
    obtain ⟨before, text, rfl, hbefore, hvalue⟩ := hpart _ _ _ hx
    obtain ⟨after, hafter, hsplit⟩ := skipSpace_split cs'
    have hspaced : Part.Spaced ⟨ws ++ before, text, after, x⟩ :=
      ⟨fun c hc => (mem_append.mp hc).elim (hws c) (hbefore c), hafter⟩
    split at h
    · cases h
    rename_i c rest' hnext
    rw [hnext] at hsplit
    split at h
    · rename_i hcomma
      simp only [Option.bind_eq_some_iff, Option.pure_def, Option.some.injEq, Prod.mk.injEq] at h
      obtain ⟨⟨xs', rest''⟩, hxs, rfl, rfl⟩ := h
      obtain ⟨ps, hne, hspaceds, hvalues, hcs, rfl⟩ := ih (show Blank [] by simp [Blank]) hxs
      refine ⟨⟨ws ++ before, text, after, x⟩ :: ps, cons_ne_nil _ _, forall_mem_cons.mpr ⟨hspaced, hspaceds⟩,
        forall_mem_cons.mpr ⟨hvalue, hvalues⟩, ?_, rfl⟩
      rw [map_cons, listed_cons _ (by simpa using hne), hsplit, hcomma, show rest' = _ from hcs]
      simp [Part.chars]
    · split at h
      · rename_i hclose
        simp only [Option.pure_def, Option.some.injEq, Prod.mk.injEq] at h
        obtain ⟨rfl, rfl⟩ := h
        refine ⟨[⟨ws ++ before, text, after, x⟩], cons_ne_nil _ _, by simpa using hspaced, by simpa using hvalue, ?_, rfl⟩
        rw [hsplit, hclose]
        simp [Part.chars, listed]
      · cases h

end

theorem readMember_sound {v : List Char → Option (Json × List Char)} (hv : Sound v IsValue) :
    Sound (readMember v) (IsMember IsValue) := by
  intro cs nx rest h
  obtain ⟨before, hbefore, hsplit⟩ := skipSpace_split cs
  unfold readMember at h
  split at h
  · rename_i cs' hquote
    simp only [Option.bind_eq_bind, Option.bind_eq_some_iff] at h
    obtain ⟨⟨name, cs''⟩, hname, h⟩ := h
    obtain ⟨body, us, rfl, hus, rfl⟩ := string_sound hname
    obtain ⟨gap, hgap, hsplit'⟩ := skipSpace_split cs''
    split at h
    · rename_i hcolon
      simp only [Option.bind_eq_some_iff, Option.pure_def, Option.some.injEq, Prod.mk.injEq] at h
      obtain ⟨⟨x, rest'⟩, hx, rfl, rfl⟩ := h
      obtain ⟨before', text, rfl, hbefore', hvalue⟩ := hv _ _ _ hx
      refine ⟨before, _, ?_, hbefore, .intro hus hgap hbefore' hvalue⟩
      rw [hsplit, hquote, hsplit', hcolon]
      simp
    · cases h
  · cases h

theorem number_sound {x : Json} (h : number cs = some (x, rest)) : ∃ text, cs = text ++ rest ∧ IsValue text x := by
  unfold number at h
  simp only [Option.ite_none_right_eq_some, Option.some.injEq, Prod.mk.injEq] at h
  obtain ⟨hvalid, rfl, rfl⟩ := h
  exact ⟨_, takeWhile_append_dropWhile.symm, .num hvalid⟩

theorem value_sound (depth : Nat) : Sound (value depth) IsValue := by
  induction depth with
  | zero => simp [Sound, value]
  | succ depth ih =>
    intro cs x rest h
    obtain ⟨before, hbefore, hsplit⟩ := skipSpace_split cs
    rw [value] at h
    suffices ∃ text, skipSpace cs = text ++ rest ∧ IsValue text x by
      obtain ⟨text, htext, hvalue⟩ := this
      exact ⟨before, text, by rw [← htext]; exact hsplit, hbefore, hvalue⟩
    split at h
    · rename_i cs' hopen
      rw [hopen]
      obtain ⟨ws, hws, hsplit'⟩ := skipSpace_split cs'
      split at h
      · rename_i hclose
        obtain ⟨rfl, rfl⟩ := Prod.mk.inj (Option.some.inj h)
        exact ⟨_, by rw [hsplit', hclose]; simp, .obj_nil hws⟩
      · obtain ⟨⟨nxs, rest'⟩, hnxs, heq⟩ := Option.map_eq_some_iff.mp h
        obtain ⟨rfl, rfl⟩ := Prod.mk.inj heq
        obtain ⟨ms, hne, hspaced, hvalues, hcs, rfl⟩ := parts_sound (readMember_sound ih) hws hnxs
        exact ⟨_, by rw [hsplit', hcs]; simp, .obj hne hspaced hvalues⟩
    · rename_i cs' hopen
      rw [hopen]
      obtain ⟨ws, hws, hsplit'⟩ := skipSpace_split cs'
      split at h
      · rename_i hclose
        obtain ⟨rfl, rfl⟩ := Prod.mk.inj (Option.some.inj h)
        exact ⟨_, by rw [hsplit', hclose]; simp, .arr_nil hws⟩
      · obtain ⟨⟨xs, rest'⟩, hxs, heq⟩ := Option.map_eq_some_iff.mp h
        obtain ⟨rfl, rfl⟩ := Prod.mk.inj heq
        obtain ⟨items, hne, hspaced, hvalues, hcs, rfl⟩ := parts_sound ih hws hxs
        exact ⟨_, by rw [hsplit', hcs]; simp, .arr hne hspaced hvalues⟩
    · rename_i cs' hopen
      rw [hopen]
      obtain ⟨⟨s, rest'⟩, hs, heq⟩ := Option.map_eq_some_iff.mp h
      obtain ⟨rfl, rfl⟩ := Prod.mk.inj heq
      obtain ⟨body, us, rfl, hus, rfl⟩ := string_sound hs
      exact ⟨_, by simp, .str hus⟩
    · rename_i hopen
      obtain ⟨rfl, rfl⟩ := Prod.mk.inj (Option.some.inj h)
      exact ⟨_, hopen, .bool_true⟩
    · rename_i hopen
      obtain ⟨rfl, rfl⟩ := Prod.mk.inj (Option.some.inj h)
      exact ⟨_, hopen, .bool_false⟩
    · rename_i hopen
      obtain ⟨rfl, rfl⟩ := Prod.mk.inj (Option.some.inj h)
      exact ⟨_, hopen, .null⟩
    · exact number_sound h

/-! ## What is in the grammar is read -/

theorem units_complete {body : List Char} (h : IsUnits body us) : units (body ++ '"' :: rest) = some (us, rest) := by
  induction h with
  | nil => rfl
  | plain hquote hback hcontrol _ ih =>
    rw [cons_append, units]
    · simp [hcontrol, ih]
    · exact hquote
    · exact fun _ _ _ _ _ heq => absurd heq hback
    · exact fun _ _ heq => absurd heq hback
  | @escaped e c cs us he _ ih =>
    have hu : e ≠ 'u' := by
      rintro rfl
      simp [simpleEscape] at he
    rw [cons_append, cons_append, units]
    · simp [he, ih]
    · exact fun _ _ _ _ _ heq => absurd heq hu
  | hex ha hb hc hd _ ih => simp [units, ha, hb, hc, hd, ih]

theorem skipSpace_append {ws : List Char} (h : Blank ws) (cs : List Char) : skipSpace (ws ++ cs) = skipSpace cs :=
  dropWhile_append_of_pos h

theorem skipSpace_cons {c : Char} (h : isSpace c = false) (cs : List Char) : skipSpace (c :: cs) = c :: cs := by
  simp [skipSpace, h]

/-- Nothing that could belong to a number. -/
def Ends (rest : List Char) : Prop := ∀ c cs, rest = c :: cs → isNumberChar c = false

theorem ends_cons {c : Char} (h : isNumberChar c = false) (cs : List Char) : Ends (c :: cs) := by
  rintro _ _ ⟨⟩
  exact h

theorem not_numberChar_of_space {c : Char} (h : isSpace c = true) : isNumberChar c = false := by
  simp only [isSpace, Bool.or_eq_true, decide_eq_true_eq] at h
  rcases h with ((rfl | rfl) | rfl) | rfl <;> decide

theorem Ends.append {ws : List Char} (h : Ends rest) (hws : Blank ws) : Ends (ws ++ rest) := by
  cases ws with
  | nil => exact h
  | cons c ws => exact ends_cons (not_numberChar_of_space (hws c mem_cons_self)) _

section

variable {α : Type} {part : List Char → Option (α × List Char)} {close : Char} {ps : List (Part α)}

/-- The reader takes the text for the value, whatever comes behind it. -/
def Takes (part : List Char → Option (α × List Char)) (text : List Char) (x : α) : Prop :=
  ∀ before rest, Blank before → Ends rest → part (before ++ (text ++ rest)) = some (x, rest)

/-- The character closes a list: it belongs to no value and to no white space. -/
structure Closes (close : Char) : Prop where
  number : isNumberChar close = false
  space : isSpace close = false
  comma : close ≠ ','

theorem parts_complete (hclose : Closes close) {n : Nat} (hne : ps ≠ []) (hn : ps.length ≤ n)
    (hspaced : ∀ p ∈ ps, p.Spaced) (hv : ∀ p ∈ ps, Takes part p.text p.value) :
    parts part close n (listed (ps.map Part.chars) ++ close :: rest) = some (ps.map Part.value, rest) := by
  induction ps generalizing n with
  | nil => exact absurd rfl hne
  | cons p ps ih =>
    obtain ⟨n, rfl⟩ := Nat.exists_eq_add_of_le' (show 1 ≤ n by simp at hn; omega)
    obtain ⟨⟨hbefore, hafter⟩, hspaceds⟩ := forall_mem_cons.mp hspaced
    obtain ⟨htakes, htakess⟩ := forall_mem_cons.mp hv
    -- the part and the character behind it
    have hread {c : Char} (hnumber : isNumberChar c = false) (hspace : isSpace c = false) (cs : List Char) :
        part (p.chars ++ c :: cs) = some (p.value, p.after ++ c :: cs) ∧ skipSpace (p.after ++ c :: cs) = c :: cs := by
      have hx := htakes p.before (p.after ++ c :: cs) hbefore (.append (ends_cons hnumber _) hafter)
      rw [skipSpace_append hafter, skipSpace_cons hspace]
      exact ⟨by simpa [Part.chars] using hx, rfl⟩
    by_cases hps : ps = []
    · subst hps
      obtain ⟨hx, hskip⟩ := hread hclose.number hclose.space rest
      rw [map_singleton, listed, parts, hx]
      simp [hskip, hclose.comma]
    · obtain ⟨hx, hskip⟩ := @hread ',' (by decide) (by decide) (listed (ps.map Part.chars) ++ close :: rest)
      have hrest := ih hps (by simpa using hn) hspaceds htakess
      rw [map_cons, listed_cons _ (by simpa using hps), append_assoc, cons_append, parts, hx]
      simp [hskip, hrest]

theorem length_le_listed {css : List (List Char)} : (∀ cs ∈ css, cs.length ≤ (listed css).length) ∧
    ((∀ cs ∈ css, cs ≠ []) → css.length ≤ (listed css).length) := by
  induction css with
  | nil => simp
  | cons cs css ih =>
    by_cases hnil : css = []
    · subst hnil
      simpa [listed, Nat.succ_le_iff] using length_pos_iff.mpr
    · rw [listed_cons cs hnil]
      refine ⟨forall_mem_cons.mpr ⟨by simp, fun cs' hcs' => ?_⟩, fun hne => ?_⟩
      · have hle := ih.1 cs' hcs'
        simp
        omega
      · have hle := ih.2 fun cs' hcs' => hne cs' (mem_cons_of_mem cs hcs')
        simp
        omega

/-- The text starts neither with white space nor with the closing character. -/
def Starts (close : Char) (text : List Char) : Prop := ∃ c cs, text = c :: cs ∧ isSpace c = false ∧ c ≠ close

/-- White space in front of the parts is skipped before they are read. -/
theorem parts_skipSpace (hclose : Closes close) (hne : ps ≠ []) (hspaced : ∀ p ∈ ps, p.Spaced)
    (hstarts : ∀ p ∈ ps, Starts close p.text) (hv : ∀ p ∈ ps, Takes part p.text p.value) :
    (∀ cs, skipSpace (listed (ps.map Part.chars) ++ close :: rest) ≠ close :: cs) ∧
      parts part close (skipSpace (listed (ps.map Part.chars) ++ close :: rest)).length
        (skipSpace (listed (ps.map Part.chars) ++ close :: rest)) = some (ps.map Part.value, rest) := by
  obtain ⟨p, ps, rfl⟩ := exists_cons_of_ne_nil hne
  obtain ⟨⟨hbefore, hafter⟩, hspaceds⟩ := forall_mem_cons.mp hspaced
  obtain ⟨c, cs, htext, hspace, hc⟩ := hstarts p mem_cons_self
  have hfirst : Part.chars { p with before := [] } = c :: (cs ++ p.after) := by simp [Part.chars, htext]
  have hlisted : listed (({ p with before := [] } :: ps).map Part.chars) =
      c :: listed ((cs ++ p.after) :: ps.map Part.chars) := by
    rw [map_cons, hfirst]
    exact (append_listed [c] _ _).symm
  have hskip : skipSpace (listed ((p :: ps).map Part.chars) ++ close :: rest) =
      listed (({ p with before := [] } :: ps).map Part.chars) ++ close :: rest := by
    have hsplit : listed ((p :: ps).map Part.chars) =
        p.before ++ listed (({ p with before := [] } :: ps).map Part.chars) := (append_listed _ _ _).symm
    rw [hsplit, append_assoc, skipSpace_append hbefore, hlisted, cons_append, skipSpace_cons hspace]
  refine ⟨fun cs' heq => ?_, ?_⟩
  · rw [hskip, hlisted] at heq
    exact hc (List.cons.inj heq).1
  · rw [hskip]
    refine parts_complete hclose (cons_ne_nil _ _) ?_ (forall_mem_cons.mpr ⟨⟨by simp [Blank], hafter⟩, hspaceds⟩)
      (forall_mem_cons.mpr ⟨hv p mem_cons_self, fun q hq => hv q (mem_cons_of_mem p hq)⟩)
    have hlen := (@length_le_listed (({ p with before := [] } :: ps).map Part.chars)).2 ?_
    · rw [length_map] at hlen
      exact hlen.trans (by simp)
    · refine forall_mem_map.mpr (forall_mem_cons.mpr ⟨by simp [hfirst], fun q hq => ?_⟩)
      obtain ⟨_, _, hq, -⟩ := hstarts q (mem_cons_of_mem p hq)
      simp [Part.chars, hq]

end

/-- A member is read if its value is. -/
theorem readMember_complete {v : List Char → Option (Json × List Char)} {name gap before text : List Char} {x : Json}
    (hname : IsUnits name us) (hgap : Blank gap) (hbefore : Blank before) (hv : Takes v text x) :
    Takes (readMember v) ('"' :: (name ++ '"' :: (gap ++ ':' :: (before ++ text)))) (ofUnitList us, x) := by
  intro front rest hfront hrest
  have hcolon (cs : List Char) : skipSpace (gap ++ ':' :: cs) = ':' :: cs := by
    rw [skipSpace_append hgap, skipSpace_cons (by decide)]
  rw [readMember, skipSpace_append hfront, cons_append, skipSpace_cons (by decide)]
  simp [string, units_complete hname, hcolon, hv before rest hbefore hrest, ofUnitList]

/-! ### Numbers -/

theorem isNumberChar_of_digits (h : allDigits cs = true) : ∀ c ∈ cs, isNumberChar c = true := by
  intro c hc
  simp only [allDigits, Bool.and_eq_true, all_eq_true] at h
  simp [isNumberChar, h.2 c hc]

theorem isNumberChar_of_exponent (h : validExponent cs = true) : ∀ c ∈ cs, isNumberChar c = true := by
  unfold validExponent at h
  split at h
  · simp
  all_goals
    simp only [Bool.and_eq_true, Bool.or_eq_true, decide_eq_true_eq] at h
    have hds := isNumberChar_of_digits h.2
    rcases h.1 with rfl | rfl <;> simpa [isNumberChar] using hds

theorem isNumberChar_of_fraction (h : validFraction cs = true) : ∀ c ∈ cs, isNumberChar c = true := by
  unfold validFraction at h
  split at h
  · rename_i ds
    simp only [Bool.and_eq_true] at h
    intro c hc
    rcases mem_cons.mp hc with rfl | hc
    · decide
    · rw [← takeWhile_append_dropWhile (l := ds)] at hc
      rcases mem_append.mp hc with hc | hc
      · exact isNumberChar_of_digits h.1 c hc
      · exact isNumberChar_of_exponent h.2 c hc
  · exact isNumberChar_of_exponent h

theorem isNumberChar_of_valid (h : validNumber cs = true) : ∀ c ∈ cs, isNumberChar c = true := by
  have hunsigned : ∀ ds : List Char, validInt (ds.takeWhile Char.isDigit) = true →
      validFraction (ds.dropWhile Char.isDigit) = true → ∀ c ∈ ds, isNumberChar c = true := by
    intro ds hint hrest c hc
    rw [← takeWhile_append_dropWhile (l := ds)] at hc
    rcases mem_append.mp hc with hc | hc
    · simp only [validInt, Bool.and_eq_true] at hint
      exact isNumberChar_of_digits hint.1 c hc
    · exact isNumberChar_of_fraction hrest c hc
  simp only [validNumber, Bool.and_eq_true] at h
  have hall := hunsigned _ h.1 h.2
  split at hall
  · rename_i hminus
    cases cs with
    | nil => simp
    | cons c cs =>
      obtain rfl : c = '-' := by simpa using hminus
      intro d hd
      rcases mem_cons.mp hd with rfl | hd
      · decide
      · exact hall d hd
  · exact hall

theorem validNumber_ne_nil (h : validNumber cs = true) : cs ≠ [] := by
  rintro rfl
  simp [validNumber, validInt, allDigits] at h

theorem number_complete (h : validNumber cs = true) (hrest : Ends rest) : number (cs ++ rest) = some (.num cs, rest) := by
  have hchars := isNumberChar_of_valid h
  have hstop : rest.takeWhile isNumberChar = [] ∧ rest.dropWhile isNumberChar = rest := by
    cases rest with
    | nil => simp
    | cons c rest => simp [hrest c rest rfl]
  rw [number, takeWhile_append_of_pos hchars, List.dropWhile_append_of_pos hchars, hstop.1, hstop.2, append_nil,
    if_pos h]

/-! ### Values -/

theorem IsValue.starts {text : List Char} {x : Json} (h : IsValue text x) : Starts ']' text := by
  cases h with
  | num hvalid =>
    obtain ⟨c, cs, rfl⟩ := exists_cons_of_ne_nil (validNumber_ne_nil hvalid)
    have hc := isNumberChar_of_valid hvalid c mem_cons_self
    refine ⟨c, cs, rfl, Bool.eq_false_iff.mpr fun hspace => ?_, ?_⟩
    · simp [not_numberChar_of_space hspace] at hc
    · rintro rfl
      simp [isNumberChar] at hc
  | _ => exact ⟨_, _, rfl, by decide, by decide⟩

/-- The part of a list is shorter than the list in its brackets. -/
theorem Part.text_length_le {α : Type} {ps : List (Part α)} {p : Part α} {c c' : Char} {depth : Nat} (hp : p ∈ ps)
    (h : (c :: (listed (ps.map Part.chars) ++ [c'])).length ≤ depth + 1) : p.text.length ≤ depth := by
  have hle := length_le_listed.1 p.chars (mem_map_of_mem hp)
  simp [Part.chars] at hle h
  omega

theorem value_complete (depth : Nat) : ∀ {text : List Char} {x : Json}, IsValue text x → text.length ≤ depth →
    Takes (value depth) text x := by
  induction depth with
  | zero =>
    intro text x h hdepth
    obtain ⟨c, cs, rfl, -⟩ := h.starts
    simp at hdepth
  | succ depth ih =>
    intro text x h hdepth before rest hbefore hrest
    cases h with
    | @arr items hne hspaced hvalues =>
      obtain ⟨hopen, hread⟩ := @parts_skipSpace rest _ (value depth) ']' _ ⟨by decide, by decide, by decide⟩ hne hspaced
        (fun i hi => (hvalues i hi).starts) fun i hi => ih (hvalues i hi) (i.text_length_le hi hdepth)
      rw [value, skipSpace_append hbefore, cons_append, skipSpace_cons (by decide), append_assoc, singleton_append]
      simp only [hread, Option.map_some]
    | @obj ms hne hspaced hvalues =>
      have htakes : ∀ m ∈ ms, Starts '\x7d' m.text ∧ Takes (readMember (value depth)) m.text m.value := by
        intro m hm
        have hlen := m.text_length_le hm hdepth
        obtain ⟨front, text, after, nx⟩ := m
        cases hvalues _ hm with
        | intro hname hgap hbefore hvalue =>
          refine ⟨⟨_, _, rfl, by decide, by decide⟩, readMember_complete hname hgap hbefore (ih hvalue ?_)⟩
          simp at hlen
          omega
      obtain ⟨hopen, hread⟩ := @parts_skipSpace rest _ (readMember (value depth)) '\x7d' _
        ⟨by decide, by decide, by decide⟩ hne hspaced (fun m hm => (htakes m hm).1) fun m hm => (htakes m hm).2
      rw [value, skipSpace_append hbefore, cons_append, skipSpace_cons (by decide), append_assoc, singleton_append]
      simp only [hread, Option.map_some]
    | num hvalid =>
      obtain ⟨c, cs, rfl⟩ := exists_cons_of_ne_nil (validNumber_ne_nil hvalid)
      have hc := isNumberChar_of_valid hvalid c mem_cons_self
      have hspace : isSpace c = false := Bool.eq_false_iff.mpr fun h => by simp [not_numberChar_of_space h] at hc
      have hnumber := number_complete hvalid hrest
      rw [value, skipSpace_append hbefore, cons_append, skipSpace_cons hspace]
      rw [cons_append] at hnumber
      -- no other kind of value starts like a number
      split <;> first
        | exact hnumber
        | (rename_i heq
           obtain ⟨rfl, -⟩ := List.cons.inj heq
           simp [isNumberChar] at hc)
    | str hus =>
      rw [value, skipSpace_append hbefore, cons_append, skipSpace_cons (by decide)]
      simp [string, units_complete hus, ofUnitList]
    | arr_nil hws | obj_nil hws =>
      rw [value, skipSpace_append hbefore, cons_append, skipSpace_cons (by decide), append_assoc, singleton_append]
      simp only [skipSpace_append hws, skipSpace_cons (show isSpace ']' = false by decide),
        skipSpace_cons (show isSpace '\x7d' = false by decide)]
    | _ =>
      rw [value, skipSpace_append hbefore]
      rfl

/-- **The reader and the grammar agree**: it reads exactly the texts of one value with white space around it. -/
theorem decode_eq_some_iff {text : List Char} {x : Json} :
    decode text = some x ↔ ∃ i : Part Json, i.Spaced ∧ IsValue i.text x ∧ text = i.chars := by
  unfold decode
  constructor
  · intro h
    split at h
    · rename_i y rest hread
      obtain ⟨before, body, htext, hbefore, hvalue⟩ := value_sound _ _ _ _ hread
      obtain ⟨hrest, rfl⟩ := (Option.ite_none_right_eq_some.trans (and_congr_right fun _ => Option.some_inj)).mp h
      obtain ⟨after, hafter, hsplit⟩ := skipSpace_split rest
      rw [hrest, append_nil] at hsplit
      exact ⟨⟨before, body, after, y⟩, ⟨hbefore, hafter⟩, hvalue, by rw [htext, hsplit]; rfl⟩
    · cases h
  · rintro ⟨i, ⟨hbefore, hafter⟩, hvalue, rfl⟩
    have hnil : Ends [] := by simp [Ends]
    have hends : Ends i.after := by simpa using hnil.append hafter
    have hread := value_complete i.chars.length hvalue (by simp [Part.chars]; omega) i.before i.after hbefore hends
    rw [show value i.chars.length i.chars = some (x, i.after) from hread]
    have hskip : skipSpace i.after = [] := dropWhile_eq_nil_iff.mpr hafter
    simp [hskip]

end OpenEtl.Json
