import Marginalia.Proofs.Json.Enforce

/-!
# Json — decoders that insist, by kind

A value that names its kind meets a demand if what belongs to the kind does
(`Json.Decoder.of_beside`). The demand may be about the value itself, which
its parts say nothing of, so that it has to be met there for a reason of
its own.
-/

namespace Marginalia.Json

variable {α γ ε : Type} {a : α} {p : Place} {node : Node} {members : List Member}
variable {demand : Demand}

/-- **The content of a kind only takes what meets the demand**, and gives
what has the property where no array is too long for a machine word. -/
inductive Content.Enforces (demand : Demand) (P : α → Prop) : Outline → Content α → Prop
  | bare {outline : Outline} {a : α} : P a → Enforces demand P outline (.bare a)
  | single {outline : Outline} {d : Decoder α} :
      d.Enforces demand outline P → Enforces demand P outline (.single d)
  | record {fs : List (String × Outline)} {fields : Fields α} {title : Option String} :
      fields.Enforces demand fs P → Enforces demand P (.record fs) (.record title fields)

namespace Decoder

variable {outline : Outline} {P : α → Prop} {kinds : Kinds α} {content : Content α}
variable {fs : List (String × Outline)} {type name : String}

theorem of_besideContent (h : Content.Enforces demand P outline content)
    (ha : besideContent type name content p node = .ok a) :
    demand.Met outline node ∧ (node.width < wordBound → P a) := by
  cases h with
  | bare h =>
    cases node with
    | null =>
      cases ha
      exact ⟨Demand.met_null outline, fun _ => h⟩
    | _ => cases ha
  | single h => exact h ha
  | record h =>
    cases node with
    | object members closed =>
      obtain ⟨p', -, ha⟩ := bind_eq_ok.mp ha
      obtain ⟨hmet, hgives⟩ := h.members (Fields.ofMembers_of_ofObject ha)
      refine ⟨Demand.met_object nofun fun key i value inner hvalue hinner => ?_, hgives⟩
      exact hmet key inner i value (Outline.mem_of_lookup hinner) hvalue
    | _ => cases ha

/-- **A value with its kind beside it** meets the demand if its content
does, and it does itself. -/
theorem of_beside (h : kinds.Follow (Content.Enforces demand P) fs)
    (hd : beside type kinds p node = .ok a)
    (hhere : (Outline.beside fs).offers demand.kind = true → demand.asks node) :
    demand.Met (.beside fs) node ∧ (node.width < wordBound → P a) := by
  obtain ⟨room, -, htakes⟩ := takesBeside_of_ok hd
  cases htakes with
  | @pair items closed held tag value name content htag hvalue hkind ha =>
    obtain ⟨o, ho, hcontent⟩ := pick_of_kindItem h hkind
    obtain ⟨hmet, hgives⟩ := of_besideContent hcontent ha
    constructor
    · refine Demand.met_array hhere fun i item hitem => ?_
      show demand.Met (if i = 1 then (items[0]?.bind (Outline.pick fs)).getD .whole else .whole)
        item
      -- only the item after the name of the kind is wanted as something
      split
      · rename_i hi
        obtain rfl := Option.some.inj (hvalue.symm.trans (hi ▸ hitem))
        rwa [htag, Option.bind_some, ho]
      · exact Demand.met_whole item
    · intro hwidth
      have hmem := List.mem_of_getElem? hvalue
      exact hgives (Nat.lt_of_le_of_lt (Node.width_item_le hmem) (Nat.max_lt.mp hwidth).2)
  | @members members closed held held' i j tag value name content htag hvalue hkind ha =>
    obtain ⟨o, ho, hcontent⟩ := pick_of_kindName h hkind
    obtain ⟨hmet, hgives⟩ := of_besideContent hcontent ha
    constructor
    · refine Demand.met_object hhere fun key k value' inner hfind hinner => ?_
      simp only [Outline.within, Outline.member?] at hinner
      split at hinner
      · cases hinner
        exact Demand.met_whole value'
      · split at hinner
        · rename_i hkey
          subst hkey
          cases hvalue.symm.trans hfind
          rw [htag, Option.map_some, Option.bind_some, ho] at hinner
          cases hinner
          exact hmet
        · cases hinner
    · intro hwidth
      have hmem := mem_of_findMember hvalue
      exact hgives (Nat.lt_of_le_of_lt (Node.width_value_le hmem) hwidth)
  | @alone members closed held i tag name htag hnone hkind =>
    obtain ⟨o, ho, hcontent⟩ := pick_of_kindName h hkind
    constructor
    · refine Demand.met_object hhere fun key k value inner hfind hinner => ?_
      simp only [Outline.within, Outline.member?] at hinner
      split at hinner
      · cases hinner
        exact Demand.met_whole value
      · split at hinner
        · rename_i hkey
          subst hkey
          cases hnone.symm.trans hfind
        · cases hinner
    · cases hcontent with
      | bare ha => exact fun _ => ha

/-- Where the kind in question is another one, nothing is asked of the value
itself. -/
theorem enforces_beside (h : kinds.Follow (Content.Enforces demand P) fs)
    (hnone : fs.lookup demand.kind = none) :
    (beside type kinds).Enforces demand (.beside fs) P := by
  intro p node a hd
  refine of_beside h hd fun hoffers => ?_
  rw [Outline.offers, hnone] at hoffers
  cases hoffers

/-! ## Results -/

theorem enforces_result {ok : Decoder α} {err : Decoder ε} {o o' : Outline} {Q : ε → Prop}
    {R : Except ε α → Prop} (hok : ok.Enforces demand o P) (herr : err.Enforces demand o' Q)
    (hP : ∀ a, P a → R (.ok a)) (hQ : ∀ e, Q e → R (.error e)) :
    (result ok err).Enforces demand (.record [("Ok", o), ("Err", o')]) R := by
  intro p node r hd
  obtain ⟨key, value, closed, p', rfl, -, h⟩ := result_eq_ok hd
  have hone {inner : Outline} (hinner : [("Ok", o), ("Err", o')].lookup key = some inner)
      (hmet : demand.Met inner value) :
      demand.Met (.record [("Ok", o), ("Err", o')]) (.object [(some key, value)] closed) := by
    refine Demand.met_object nofun fun key' i value' inner' hfind hinner' => ?_
    obtain ⟨heq, rfl⟩ := Prod.mk.inj (List.mem_singleton.mp (mem_of_findMember hfind))
    cases heq
    cases hinner.symm.trans hinner'
    exact hmet
  have hnarrow (hwidth : (Node.object [(some key, value)] closed).width < wordBound) :
      value.width < wordBound := by
    have hmem : (some key, value) ∈ [(some key, value)] := List.mem_singleton.mpr rfl
    exact Nat.lt_of_le_of_lt (Node.width_value_le hmem) hwidth
  rcases h with ⟨rfl, a, ha, rfl⟩ | ⟨rfl, e, he, rfl⟩
  · exact ⟨hone rfl (hok ha).1, fun hwidth => hP a ((hok ha).2 (hnarrow hwidth))⟩
  · exact ⟨hone rfl (herr he).1, fun hwidth => hQ e ((herr he).2 (hnarrow hwidth))⟩

/-! ## Decoders that refer to themselves -/

theorem Enforces.again {d : Decoder α} (h : d.Enforces demand demand.root P) :
    d.Enforces demand .again P :=
  fun _ _ _ hd => ⟨(h hd).1.again, (h hd).2⟩

/-- **A decoder that refers to itself** enforces a demand, if one step
does. -/
theorem enforces_fix {step : Decoder α → Decoder α}
    (h : ∀ inner : Decoder α, inner.Enforces demand .again P →
      (step inner).Enforces demand demand.root P) :
    (fix step).Enforces demand demand.root P := by
  have hunfold (n : Nat) : (unfoldTimes step n).Enforces demand demand.root P := by
    induction n with
    | zero => exact fun _ _ _ hd => nomatch hd
    | succ n ih => exact h _ ih.again
  exact fun p _ _ hd => hunfold (p.room + 1) hd

end Decoder

end Marginalia.Json
