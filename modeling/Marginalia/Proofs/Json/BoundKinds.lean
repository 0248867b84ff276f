import Marginalia.Proofs.Json.Bound
import Mathlib.Data.List.Forall2

/-!
# Json — what a decoder gives, by kind

A value that names its kind has a property if, kind by kind, what belongs
to the kind has it (`Json.Decoder.gives_beside`,
`Json.Decoder.gives_inside`). The kinds of a decoder are matched with those
of an outline in order, as a held value may name its kind by position.
-/

namespace Marginalia.Json

variable {α γ ε : Type} {b : Nat} {a : α} {name key : String} {p : Place} {node tag : Node}
variable {members : List Member}

/-- **What the content of a kind gives has the property** at every bound
that covers what is known of it, or from `least` on where there is nothing
to know. -/
inductive Content.Gives (root : Outline) (least : Nat) (P : Nat → α → Prop) :
    Outline → Content α → Prop
  | bare {outline : Outline} {a : α} :
      (∀ b, least ≤ b → P b a) → Gives root least P outline (.bare a)
  | single {outline : Outline} {d : Decoder α} :
      d.Gives root outline P → Gives root least P outline (.single d)
  | record {fs : List (String × Outline)} {fields : Fields α} {title : Option String} :
      (fs.map Prod.fst).Nodup → (fields.Gives root fs fun b => P (b + 1)) →
      Gives root least P (.record fs) (.record title fields)

/-- The kinds are named as in the outlines, in the same order, and each has
the property that its outline says. -/
abbrev Kinds.Follow (C : γ → Content α → Prop) (kinds : Kinds α) (outlines : List (String × γ)) :
    Prop :=
  List.Forall₂ (fun kind outline => kind.1 = outline.1 ∧ C outline.2 kind.2) kinds outlines

namespace Decoder

variable {root outline : Outline} {P : Nat → α → Prop} {kinds : Kinds α} {content : Content α}
variable {C : γ → Content α → Prop} {outlines : List (String × γ)} {type : String}

theorem lookup_of_find? {kind : String × Content α} (h : kinds.Follow C outlines)
    (hfind : kinds.find? (fun kind => kind.1 = name) = some kind) :
    ∃ o, outlines.lookup name = some o ∧ C o kind.2 := by
  induction h with
  | nil => cases hfind
  | @cons first outline kinds outlines hfirst _ ih =>
    rw [List.find?_cons] at hfind
    rw [List.lookup_cons, ← hfirst.1]
    by_cases heq : first.1 = name
    · rw [decide_eq_true heq] at hfind
      cases hfind
      exact ⟨outline.2, by simp [heq], hfirst.2⟩
    · rw [decide_eq_false heq] at hfind
      rw [beq_false_of_ne (Ne.symm heq)]
      exact ih hfind

theorem lookup_of_kindOf (h : kinds.Follow C outlines)
    (hkind : kindOf kinds name = .ok (key, content)) :
    ∃ o, outlines.lookup name = some o ∧ C o content := by
  unfold kindOf at hkind
  split at hkind
  · rename_i kind hfind
    cases hkind
    exact lookup_of_find? h hfind
  · cases hkind

theorem getElem?_of_follow {k : Nat} {kind : String × Content α} (h : kinds.Follow C outlines)
    (hget : kinds[k]? = some kind) :
    ∃ o, outlines[k]?.map Prod.snd = some o ∧ C o kind.2 := by
  induction h generalizing k with
  | nil => cases hget
  | @cons first outline kinds outlines hfirst _ ih =>
    cases k with
    | zero =>
      cases hget
      exact ⟨outline.2, rfl, hfirst.2⟩
    | succ k => exact ih hget

/-- The kind that a node names as an item is the one that is picked. -/
theorem pick_of_kindItem (h : kinds.Follow C outlines)
    (hkind : kindItem kinds p tag = .ok (name, content)) :
    ∃ o, Outline.pick outlines tag = some o ∧ C o content := by
  unfold kindItem at hkind
  split at hkind
  · exact lookup_of_kindOf h hkind
  · rename_i num
    split at hkind
    · rename_i k _ hwhole
      split at hkind
      · cases hkind
      · split at hkind
        · rename_i kind hget
          cases hkind
          obtain ⟨o, ho, hcontent⟩ := getElem?_of_follow h hget
          exact ⟨o, by rw [Outline.pick, hwhole, Option.bind_some, ho], hcontent⟩
        · cases hkind
    · cases hkind
  · cases hkind

/-- So is the kind that it names by itself. -/
theorem pick_of_kindName (h : kinds.Follow C outlines)
    (hkind : kindName kinds p tag = .ok (name, content)) :
    ∃ o, Outline.pick outlines tag = some o ∧ C o content := by
  unfold kindName at hkind
  split at hkind
  · exact lookup_of_kindOf h hkind
  · cases hkind
  · cases hkind
  · split at hkind
    · split at hkind
      · obtain ⟨kind, hkind, hrest⟩ := bind_eq_ok.mp hkind
        obtain ⟨_, _, heq⟩ := bind_eq_ok.mp hrest
        cases heq
        exact lookup_of_kindOf h hkind
      · cases hkind
    · obtain ⟨_, _, hkind⟩ := bind_eq_ok.mp hkind
      split at hkind
      · obtain ⟨kind, hkind, hrest⟩ := bind_eq_ok.mp hkind
        obtain ⟨_, _, hrest⟩ := bind_eq_ok.mp hrest
        split at hrest
        · cases hrest
          exact lookup_of_kindOf h hkind
        · cases hrest
      · cases hkind
      · cases hkind
      · cases hkind
  · cases hkind

theorem gives_besideContent {outline : Outline} (h : Content.Gives root 0 P outline content)
    (ha : besideContent type name content p node = .ok a)
    (hb : min p.room (outline.depth root node) ≤ b) : P b a := by
  cases h with
  | bare h =>
    cases node with
    | null =>
      cases ha
      exact h b (Nat.zero_le b)
    | _ => cases ha
  | single h => exact h ha hb
  | record hnodup h =>
    cases node with
    | object members closed =>
      obtain ⟨p', hp', ha⟩ := bind_eq_ok.mp ha
      rw [(enter_eq_ok hp').1] at hb
      obtain ⟨c, rfl, hvalues⟩ := bound_of_object hb
      exact Fields.Gives.ofObject (P := fun b => P (b + 1)) hnodup h ha hvalues
    | _ => cases ha

/-- **How a value with its kind beside it is taken**, inside its bracket: as
an array of the kind and the content, or as an object of both, or of the
kind alone. -/
inductive TakesBeside (type : String) (kinds : Kinds α) (room : Nat) (a : α) : Node → Prop
  | pair {items : List Node} {closed held : Bool} {tag value : Node} {name : String}
      {content : Content α} : items[0]? = some tag → items[1]? = some value →
      kindItem kinds ⟨room, held⟩ tag = .ok (name, content) →
      besideContent type name content ⟨room, held⟩ value = .ok a →
      TakesBeside type kinds room a (.array items closed)
  | members {members : List Member} {closed held held' : Bool} {i j : Nat} {tag value : Node}
      {name : String} {content : Content α} : findMember "type" members = some (i, tag) →
      findMember "value" members = some (j, value) →
      kindName kinds ⟨room, held⟩ tag = .ok (name, content) →
      besideContent type name content ⟨room, held'⟩ value = .ok a →
      TakesBeside type kinds room a (.object members closed)
  | alone {members : List Member} {closed held : Bool} {i : Nat} {tag : Node} {name : String} :
      findMember "type" members = some (i, tag) → findMember "value" members = none →
      kindName kinds ⟨room, held⟩ tag = .ok (name, .bare a) →
      TakesBeside type kinds room a (.object members closed)

/-- The content may come before the kind, and is held back then. -/
theorem takesBeside_of_members {closed : Bool}
    (h : besideMembers type kinds p members = .ok a) :
    TakesBeside type kinds p.room a (.object members closed) := by
  unfold besideMembers at h
  dsimp only at h
  split at h
  · cases h
  · split at h <;> cases h
  · rename_i htag hvalue
    split at h
    · cases h
    · rename_i name content hkind
      cases content with
      | bare a' =>
        cases h
        exact .alone htag hvalue hkind
      | _ => cases h
  · rename_i htag hvalue
    split at h
    · split at h
      · cases h
      · rename_i hkind
        exact .members htag hvalue hkind (Placed.ofResult_eq_ok h)
    · split at h
      · cases h
      · obtain ⟨⟨name, content⟩, hkind, h⟩ := bind_eq_ok.mp (Placed.ofResult_eq_ok h)
        exact .members htag hvalue hkind h

theorem takesBeside_of_ok (h : beside type kinds p node = .ok a) :
    ∃ room, p.room = room + 1 ∧ TakesBeside type kinds room a node := by
  cases node with
  | array items closed =>
    obtain ⟨p', hp', h⟩ := bind_eq_ok.mp h
    obtain ⟨⟨name, content⟩, hkind, h⟩ := bind_eq_ok.mp h
    obtain ⟨a', ha, h⟩ := bind_eq_ok.mp h
    obtain ⟨_, _, heq⟩ := bind_eq_ok.mp h
    cases heq
    obtain ⟨tag, htag, hkind⟩ := itemAt_eq_ok hkind
    obtain ⟨value, hvalue, ha⟩ := itemAt_eq_ok ha
    exact ⟨p'.room, (enter_eq_ok hp').1, .pair htag hvalue hkind ha⟩
  | object members closed =>
    obtain ⟨p', hp', h⟩ := bind_eq_ok.mp h
    exact ⟨p'.room, (enter_eq_ok hp').1, takesBeside_of_members (Placed.of_around h)⟩
  | _ => cases h

variable {fs : List (String × Outline)}

/-- **A value with its kind beside it** has a property that its content has
one bracket deeper. -/
theorem gives_beside (h : kinds.Follow (Content.Gives root 0 fun b => P (b + 1)) fs) :
    (beside type kinds).Gives root (.beside fs) P := by
  intro p node a b hd hb
  obtain ⟨room, hroom, htakes⟩ := takesBeside_of_ok hd
  rw [hroom] at hb
  cases htakes with
  | @pair items closed held tag value name content htag hvalue hkind ha =>
    obtain ⟨c, rfl, hitems⟩ := bound_of_array hb
    obtain ⟨o, ho, hcontent⟩ := pick_of_kindItem h hkind
    refine gives_besideContent (P := fun b => P (b + 1)) hcontent ha ?_
    have hitem : min room
        (((items[0]?.bind (Outline.pick fs)).getD .whole).depth root value) ≤ c :=
      hitems 1 value hvalue
    rwa [htag, Option.bind_some, ho] at hitem
  | @members members closed held held' i j tag value name content htag hvalue hkind ha =>
    obtain ⟨c, rfl, hvalues⟩ := bound_of_object hb
    obtain ⟨o, ho, hcontent⟩ := pick_of_kindName h hkind
    refine gives_besideContent (P := fun b => P (b + 1)) hcontent ha ?_
    refine hvalues "value" value (mem_of_findMember hvalue) o ?_
    simp [Outline.within, Outline.member?, htag, ho]
  | @alone members closed held i tag name htag hnone hkind =>
    obtain ⟨c, rfl, -⟩ := bound_of_object hb
    obtain ⟨o, -, hcontent⟩ := pick_of_kindName h hkind
    cases hcontent with
    | bare h => exact h c (Nat.zero_le c)

/-- Once the kind is known it stays. -/
theorem insideMembers_some {kind : String × Content α} {r : Option (String × Content α)}
    (h : insideMembers kinds p (some kind) members = .ok r) : r = some kind := by
  induction members with
  | nil =>
    cases h
    rfl
  | cons member members ih =>
    obtain ⟨_ | key, value⟩ := member
    · cases h
    · rw [insideMembers] at h
      split at h
      · cases h
      · obtain ⟨_, _, h⟩ := bind_eq_ok.mp h
        exact ih h

/-- The kind is the one that is named. -/
theorem kindItem_of_insideMembers {kind : String × Content α}
    (h : insideMembers kinds p none members = .ok (some kind)) :
    ∃ i tag, findMember "type" members = some (i, tag) ∧ kindItem kinds p tag = .ok kind := by
  induction members with
  | nil => cases h
  | cons member members ih =>
    obtain ⟨_ | key, value⟩ := member
    · cases h
    · rw [insideMembers] at h
      split at h
      · rename_i hkey
        obtain ⟨kind', hkind, h⟩ := bind_eq_ok.mp h
        cases insideMembers_some h
        exact ⟨0, value, by rw [findMember, hkey, if_pos rfl], hkind⟩
      · rename_i hkey
        obtain ⟨_, _, h⟩ := bind_eq_ok.mp h
        obtain ⟨i, tag, htag, hkind⟩ := ih h
        refine ⟨i + 1, tag, ?_, hkind⟩
        rw [findMember, if_neg fun heq => hkey (Option.some.inj heq), htag]
        rfl

variable {kindFields : List (String × List (String × Outline))}

/-- **A value with its kind among its fields** has a property that its
content has, or that it has at every bound but the least where there is no
content. -/
theorem gives_inside (h : kinds.Follow (fun fs => Content.Gives root 1 P (.record fs)) kindFields) :
    (inside type kinds).Gives root (.inside kindFields) P := by
  intro p node a b hd hb
  cases node with
  | array items closed =>
    obtain ⟨p', hp', hd⟩ := bind_eq_ok.mp hd
    have hroom := (enter_eq_ok hp').1
    rw [hroom] at hb
    obtain ⟨c, rfl, hitems⟩ := bound_of_array hb
    cases items with
    | nil => cases hd
    | cons tag items =>
      obtain ⟨⟨name, content⟩, hitem, hd⟩ := bind_eq_ok.mp hd
      obtain ⟨_, _, hd⟩ := bind_eq_ok.mp hd
      obtain ⟨fs, hfs, hcontent⟩ := pick_of_kindItem h hitem
      have hrest : ∀ (i : Nat) item, items[i]? = some item →
          min p'.room (((fs[i]?.map Prod.snd).getD Outline.whole).depth root item) ≤ c := by
        intro i item hmem
        have hdeep : min p'.room ((((Outline.pick kindFields tag).bind fun fields =>
            fields[i]?.map Prod.snd).getD Outline.whole).depth root item) ≤ c :=
          hitems (i + 1) item hmem
        rwa [hfs, Option.bind_some] at hdeep
      split at hd
      · cases hd
      · cases hcontent with
        | bare h =>
          obtain ⟨_, _, heq⟩ := bind_eq_ok.mp hd
          cases heq
          exact h (c + 1) (Nat.le_add_left 1 c)
        | single h =>
          refine h hd ?_
          rw [hroom]
          exact bound_array hrest
        | record hnodup h =>
          obtain ⟨wanted, ha⟩ := Fields.ofItems_of_ofArray hd
          refine h.items ha fun k field item hk hget => ?_
          rw [Nat.zero_add] at hget
          have hfield := hrest k item hget
          rwa [hk] at hfield
  | object members closed =>
    obtain ⟨p', hp', hd⟩ := bind_eq_ok.mp hd
    obtain ⟨kind?, hkind, hd⟩ := bind_eq_ok.mp hd
    have hroom := (enter_eq_ok hp').1
    rw [hroom] at hb
    obtain ⟨c, rfl, hvalues⟩ := bound_of_object hb
    split at hd
    · cases hd
    · match kind? with
      | none => cases hd
      | some (name, content) =>
        obtain ⟨i, tag, htag, hitem⟩ := kindItem_of_insideMembers hkind
        obtain ⟨fs, hfs, hcontent⟩ := pick_of_kindItem h hitem
        have hrest : ∀ key value, (some key, value) ∈ withoutType members →
            ∀ o ∈ fs.lookup key, min p'.room (o.depth root value) ≤ c := by
          intro key value hmem o ho
          obtain ⟨hmem, hkey⟩ := List.mem_filter.mp hmem
          refine hvalues key value hmem o ?_
          have hne : key ≠ "type" := by simpa using hkey
          simp only [Outline.within, Outline.member?, if_neg hne, htag, Option.map_some,
            Option.bind_some, hfs]
          exact ho
        cases hcontent with
        | bare h =>
          cases hd
          exact h (c + 1) (Nat.le_add_left 1 c)
        | single h =>
          refine h hd ?_
          rw [hroom]
          exact bound_object hrest
        | record hnodup h =>
          exact Fields.Gives.ofObject (P := fun b => P (b + 1)) hnodup h hd hrest
  | _ => cases hd

/-! ## Results -/

/-- A result is an object of one member. -/
theorem result_eq_ok {ok : Decoder α} {err : Decoder ε} {r : Except ε α}
    (h : result ok err p node = .ok r) : ∃ key value closed p',
      node = .object [(some key, value)] closed ∧ enter p = .ok p' ∧
        ((key = "Ok" ∧ ∃ a, ok p' value = .ok a ∧ r = .ok a) ∨
          (key = "Err" ∧ ∃ e, err p' value = .ok e ∧ r = .error e)) := by
  unfold result at h
  dsimp only at h
  split at h
  · split at h <;> cases h
  · cases h
  · cases h
  · obtain ⟨p', hp', h⟩ := bind_eq_ok.mp h
    split at h
    · cases h
    · cases h
    · cases h
    · rename_i key value others _
      have hlast {x : Except Fault (Except ε α)} {last : Bool} (hx : (x >>= fun r =>
          if others.isEmpty && last then pure r else .error .misshapen) = .ok r) :
          others = [] ∧ x = .ok r := by
        obtain ⟨r', hr, hlast⟩ := bind_eq_ok.mp hx
        split at hlast
        · rename_i hends
          cases hlast
          rw [Bool.and_eq_true, List.isEmpty_iff] at hends
          exact ⟨hends.1, hr⟩
        · cases hlast
      split at h
      · rename_i hkey
        obtain ⟨rfl, hr⟩ := hlast h
        obtain ⟨a, ha, rfl⟩ := map_eq_ok.mp hr
        exact ⟨key, value, _, p', rfl, hp', .inl ⟨hkey, a, ha, rfl⟩⟩
      · split at h
        · rename_i hkey
          obtain ⟨rfl, hr⟩ := hlast h
          obtain ⟨e, he, rfl⟩ := map_eq_ok.mp hr
          exact ⟨key, value, _, p', rfl, hp', .inr ⟨hkey, e, he, rfl⟩⟩
        · cases (hlast h).2
  · cases h

theorem gives_result {ok : Decoder α} {err : Decoder ε} {o o' : Outline} {Q : Nat → ε → Prop}
    {R : Nat → Except ε α → Prop} (hok : ok.Gives root o P) (herr : err.Gives root o' Q)
    (hP : ∀ b a, P b a → R (b + 1) (.ok a)) (hQ : ∀ b e, Q b e → R (b + 1) (.error e)) :
    (result ok err).Gives root (.record [("Ok", o), ("Err", o')]) R := by
  intro p node r b hd hb
  obtain ⟨key, value, closed, p', rfl, hp', h⟩ := result_eq_ok hd
  rw [(enter_eq_ok hp').1] at hb
  obtain ⟨c, rfl, hvalues⟩ := bound_of_object hb
  have hvalue := hvalues key value List.mem_cons_self
  rcases h with ⟨rfl, a, ha, rfl⟩ | ⟨rfl, e, he, rfl⟩
  · exact hP c a (hok ha (hvalue o (by simp [Outline.within, Outline.member?])))
  · exact hQ c e (herr he (hvalue o' (by
      simp [Outline.within, Outline.member?, List.lookup_cons])))

/-! ## Decoders that refer to themselves -/

theorem Gives.again {d : Decoder α} (h : d.Gives root root P) : d.Gives root .again P := by
  intro p node a b hd hb
  rw [Outline.depth_again] at hb
  exact h hd hb

/-- **A decoder that refers to itself** gives what has a property, if one
step does. -/
theorem gives_fix {step : Decoder α → Decoder α}
    (h : ∀ inner : Decoder α, inner.Gives root .again P → (step inner).Gives root root P) :
    (fix step).Gives root root P := by
  have hunfold (n : Nat) : (unfoldTimes step n).Gives root root P := by
    induction n with
    | zero => exact fun _ _ _ _ hd => nomatch hd
    | succ n ih => exact h _ ih.again
  exact fun p _ _ _ hd => hunfold (p.room + 1) hd

end Decoder

end Marginalia.Json
