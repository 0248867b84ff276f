import Marginalia.Number.Word
import Marginalia.Proofs.Json.Bound
import Marginalia.Proofs.State.Excerpt
import Mathlib.Data.List.Nodup
import Mathlib.Data.List.Range

/-!
# State — what is there of a sequence, and what is lacking

A shortened sequence lacks the stretch between its limit and its last
element, and nothing else (`Excerpt.get?_shorten`).

Whichever way an excerpt is come by (`Excerpt.Made`), it is proper, and
then the four ways to ask what it has agree: the element at an index, the
list of what is there, the counts, and what becomes of it when every
element is changed (`Excerpt.Proper.faithful`). The order in which the
elements are changed shows where a change does more than return a value,
so `Excerpt.mapM` is `map` with such changes (`Excerpt.mapM_pure`), and
`Excerpt.included_mapM` says that they are made once for each element,
from the first index to the last.
-/

namespace Marginalia

theorem Word.add?_eq_some {a b c : Nat} :
    Word.add? a b = some c ↔ a + b = c ∧ c < wordBound := by
  unfold Word.add?
  split
  · rename_i hfits
    rw [Option.some.injEq]
    constructor
    · intro h
      exact ⟨h, h ▸ hfits⟩
    · exact And.left
  · rename_i hlarge
    constructor
    · intro h
      cases h
    · rintro ⟨rfl, hfits⟩
      exact absurd hfits hlarge

namespace Excerpt

variable {α β : Type} {items : List α} {limit i : Nat} {a : α} {e : Excerpt α}

/-! ## Shortened sequences -/

/-- **What a shortened sequence has.** -/
theorem get?_shorten (items : List α) (limit i : Nat) :
    (shorten items limit).get? i =
      if limit + 1 < items.length ∧ limit ≤ i ∧ i < items.length - 1 then none
      else items[i]? := by
  rcases Nat.lt_or_ge (limit + 1) items.length with hlong | hshort
  · rw [shorten, if_neg (Nat.not_le.mpr hlong)]
    rcases Nat.lt_or_ge i limit with hfront | hback
    · have hi : i < items.length := by omega
      rw [if_neg (by omega)]
      simp [get?, hfront, hi]
    · have hnone : (items.take limit)[i]? = none := by
        simp only [List.getElem?_eq_none_iff, List.length_take]
        omega
      simp only [get?, hnone]
      by_cases hlast : i + 1 = items.length
      · have hi : items.length - 1 = i := by omega
        rw [if_pos hlast, if_neg (by omega), List.getLast?_eq_getElem?, hi]
      · rw [if_neg hlast]
        rcases Nat.lt_or_ge i items.length with hinside | hpast
        · rw [if_pos (by omega)]
        · rw [if_neg (by omega), List.getElem?_eq_none hpast]
  · rw [shorten, if_pos hshort, get?_complete, if_neg (by omega)]

/-- `shorten` as it is counted in machine words. -/
def wordShorten (items : List α) (limit : Nat) : Excerpt α :=
  if items.length ≤ Word.addCapped limit 1 then complete items
  else ⟨items.take limit, items.getLast?, items.length⟩

/-- No list that fits a machine word is cut short by the cap. -/
theorem wordShorten_eq (h : items.length < wordBound) (limit : Nat) :
    wordShorten items limit = shorten items limit := by
  have hsame : items.length ≤ Word.addCapped limit 1 ↔ items.length ≤ limit + 1 := by
    unfold Word.addCapped
    omega
  simp only [wordShorten, shorten, hsame]

/-- `get?` as it is counted in machine words. -/
def wordGet? (e : Excerpt α) (index : Nat) : Option α :=
  match e.front[index]? with
  | some a => some a
  | none => if Word.add? index 1 = some e.length then e.last else none

theorem wordGet?_eq (h : e.length < wordBound) (i : Nat) : e.wordGet? i = e.get? i := by
  have hsame : Word.add? i 1 = some e.length ↔ i + 1 = e.length := by
    rw [Word.add?_eq_some]
    exact and_iff_left h
  unfold wordGet? get?
  cases e.front[i]? with
  | some a => rfl
  | none => simp only [hsame]

/-- **What becomes of a sequence that is shortened.** -/
structure ShortenedTo (items : List α) (limit : Nat) : Prop where
  length : (shorten items limit).length = items.length
  /-- What is there is what was there. -/
  get?_eq_some : ∀ i a, (shorten items limit).get? i = some a → items[i]? = some a
  /-- What is not there was past the end, or between the limit and the
  last element of a sequence that is longer than both. -/
  get?_eq_none_iff : ∀ i, (shorten items limit).get? i = none ↔
    items.length ≤ i ∨ limit + 1 < items.length ∧ limit ≤ i ∧ i < items.length - 1
  /-- Limits up to the largest machine word are no exception. -/
  word : items.length < wordBound → wordShorten items limit = shorten items limit

theorem shortenedTo (items : List α) (limit : Nat) : ShortenedTo items limit where
  length := length_shorten items limit
  get?_eq_some _ _ h := get?_of_shorten h
  get?_eq_none_iff i := by
    rw [get?_shorten]
    split
    · rename_i hlacking
      exact iff_of_true rfl (.inr hlacking)
    · rename_i hthere
      rw [List.getElem?_eq_none_iff, or_iff_left hthere]
  word h := wordShorten_eq h limit

/-! ## Ways to come by an excerpt -/

/-- `map` for a change that does more than return an element: the elements
in front come first, the last one after them. -/
def mapM {m : Type → Type} [Monad m] (f : α → m β) (e : Excerpt α) : m (Excerpt β) := do
  let front ← e.front.mapM f
  let last ← e.last.mapM f
  return ⟨front, last, e.length⟩

/-- **Every way to come by an excerpt.** -/
inductive Made : {α : Type} → Excerpt α → Prop
  /-- A sequence that lacks nothing. -/
  | complete {α : Type} (items : List α) : Made (complete items)
  /-- A sequence that was shortened. -/
  | shorten {α : Type} (items : List α) (limit : Nat) : Made (shorten items limit)
  /-- Parts that were put together. -/
  | ofParts? {α : Type} {front : List α} {last : Option α} {length : Nat} {e : Excerpt α} :
      ofParts? front last length = .ok e → Made e
  /-- One whose elements were changed, -/
  | map {α β : Type} (f : α → β) {e : Excerpt α} : Made e → Made (e.map f)
  /-- perhaps by something that remembers what it has seen. -/
  | mapM {α β σ : Type} (f : α → StateM σ β) (s : σ) {e : Excerpt α} :
      Made e → Made ((e.mapM f).run s).1
  /-- One that was read from a message. -/
  | decoder {α : Type} {d : Json.Decoder α} {p : Json.Place} {node : Json.Node}
      {e : Excerpt α} : decoder d p node = .ok e → Made e

theorem Proper.mapM {σ : Type} (h : e.Proper) (f : α → StateM σ β) (s : σ) :
    ((e.mapM f).run s).1.Proper := by
  have hfront : ∀ (as : List α) (s : σ), ((as.mapM f).run s).1.length = as.length := by
    intro as
    induction as with
    | nil => exact fun s => rfl
    | cons a as ih =>
      intro s
      rw [List.mapM_cons]
      exact congrArg Nat.succ (ih _)
  obtain ⟨front, last, n⟩ := e
  have hcount : (((Excerpt.mk front last n).mapM f).run s).1.includedCount =
      (Excerpt.mk front last n).includedCount := by
    cases last <;> exact congrArg (· + _) (hfront front s)
  refine ⟨hcount ▸ h.1, fun hfull => ?_⟩
  obtain rfl := h.2 (hcount ▸ hfull)
  rfl

/-- An excerpt that is read is made from the parts that are read. -/
theorem decoder_eq_ok {d : Json.Decoder α} {p : Json.Place} {node : Json.Node}
    (h : decoder d p node = .ok e) : ∃ t, Json.Decoder.beside "Wire" (parts d) p node = .ok t ∧
      Excerpt.ofParts? t.1 t.2.1 t.2.2 = .ok e := by
  obtain ⟨⟨front, last, n⟩, ht, he⟩ := Json.Decoder.check_eq_ok h
  refine ⟨(front, last, n), ht, ?_⟩
  dsimp only at he ⊢
  cases hparts : Excerpt.ofParts? front last n with
  | error err => simp [hparts, Except.mapError] at he
  | ok made => simpa [hparts, Except.mapError] using he

theorem proper_of_decoder {d : Json.Decoder α} {p : Json.Place} {node : Json.Node}
    (h : decoder d p node = .ok e) : e.Proper := by
  obtain ⟨t, -, he⟩ := decoder_eq_ok h
  exact proper_ofParts? he

/-- **Every excerpt is proper.** -/
theorem Made.proper (h : e.Made) : e.Proper := by
  induction h with
  | complete items => exact proper_complete items
  | shorten items limit => exact proper_shorten items limit
  | ofParts? hparts => exact proper_ofParts? hparts
  | map f _ ih => exact ih.map f
  | mapM f s _ ih => exact ih.mapM f s
  | decoder hread => exact proper_of_decoder hread

/-! ## What is there, in the order of its indices -/

theorem map_fst_included (e : Excerpt α) : e.included.map Prod.fst =
    List.range e.front.length ++ e.last.toList.map fun _ => e.length - 1 := by
  rw [included, List.map_append, List.map_map, List.map_map]
  congr 1
  rw [List.range_eq_range']
  exact List.zipIdx_map_snd 0 e.front

theorem length_included (e : Excerpt α) : e.included.length = e.includedCount := by
  rw [included, List.length_append, List.length_map, List.length_map, List.length_zipIdx]
  rfl

theorem Proper.pairwise_included (h : e.Proper) :
    (e.included.map Prod.fst).Pairwise (· < ·) := by
  rw [map_fst_included, List.pairwise_append]
  refine ⟨List.pairwise_lt_range, ?_, ?_⟩
  · cases e.last with
    | none => exact .nil
    | some a => exact List.pairwise_singleton ..
  · intro i hi j hj
    obtain ⟨a, ha, rfl⟩ := List.mem_map.mp hj
    rw [Option.mem_toList] at ha
    have hi := List.mem_range.mp hi
    have hlacking := h.front_lt_of_last ha
    omega

theorem Proper.lt_length (h : e.Proper) (hi : e.get? i = some a) : i < e.length := by
  rcases get?_eq_some.mp hi with hfront | ⟨-, hlast, -⟩
  · have hlt := (List.getElem?_eq_some_iff.mp hfront).1
    have hle := h.1
    simp only [includedCount] at hle
    omega
  · omega

/-! ## What is lacking -/

/-- The indices at which an element is lacking. -/
def lacking (e : Excerpt α) : List Nat :=
  (List.range e.length).filter fun i => (e.get? i).isNone

theorem mem_lacking : i ∈ e.lacking ↔ i < e.length ∧ e.get? i = none := by
  simp [lacking]

/-- Every index below the length is listed or lacking. -/
theorem Proper.length_lacking (h : e.Proper) : e.lacking.length = e.elidedCount := by
  have hthere : ((List.range e.length).filter fun i => !(e.get? i).isNone).Perm
      (e.included.map Prod.fst) := by
    have hnodup := h.pairwise_included.imp fun hlt => Nat.ne_of_lt hlt
    rw [List.perm_ext_iff_of_nodup (List.nodup_range.filter _) hnodup]
    intro i
    simp only [List.mem_filter, List.mem_range, List.mem_map, Prod.exists, exists_eq_right,
      h.mem_included, exists_and_right]
    constructor
    · rintro ⟨-, hi⟩
      exact Option.isSome_iff_exists.mp (by simpa using hi)
    · rintro ⟨a, ha⟩
      exact ⟨h.lt_length ha, by rw [ha]; rfl⟩
  have hall := List.length_eq_length_filter_add (l := List.range e.length)
    fun i => (e.get? i).isNone
  have hlisted := hthere.length_eq
  rw [List.length_map, length_included] at hlisted
  rw [List.length_range] at hall
  simp only [lacking, elidedCount]
  omega

theorem Proper.isElided_iff (h : e.Proper) :
    e.isElided = true ↔ ∃ i, i < e.length ∧ e.get? i = none := by
  have hcount := h.length_lacking
  have helided : e.isElided = true ↔ 0 < e.lacking.length := by
    simp only [isElided, decide_eq_true_eq, hcount, elidedCount]
    omega
  rw [helided, List.length_pos_iff_exists_mem]
  exact exists_congr fun i => mem_lacking

/-! ## Changing every element -/

@[simp] theorem get?_map (e : Excerpt α) (f : α → β) (i : Nat) :
    (e.map f).get? i = (e.get? i).map f := by
  simp only [get?, map, List.getElem?_map]
  cases e.front[i]? with
  | some a => rfl
  | none =>
    show (if i + 1 = e.length then e.last.map f else none) = Option.map f (if _ then _ else _)
    split <;> rfl

theorem included_map (e : Excerpt α) (f : α → β) :
    (e.map f).included = e.included.map fun (i, a) => (i, f a) := by
  simp only [included, map, List.zipIdx_map, List.map_append, List.map_map]
  cases e.last <;> rfl

theorem mapM_pure {m : Type → Type} [Monad m] [LawfulMonad m] (e : Excerpt α) (f : α → β) :
    e.mapM (fun a => (pure (f a) : m β)) = pure (e.map f) := by
  unfold mapM
  rw [List.mapM_pure, pure_bind]
  cases hlast : e.last <;> simp [map, hlast]

theorem zipIdx_mapM {m : Type → Type} [Monad m] [LawfulMonad m] (f : α → m β) (items : List α)
    (k : Nat) : (fun bs => (bs.zipIdx k).map fun (b, i) => (i, b)) <$> items.mapM f =
      ((items.zipIdx k).map fun (a, i) => (i, a)).mapM fun (i, a) => (fun b => (i, b)) <$> f a := by
  induction items generalizing k with
  | nil => simp
  | cons a items ih =>
    simp only [List.zipIdx_cons, List.map_cons, List.mapM_cons, ← ih]
    simp

/-- **The elements are changed one after the other**, each of them once. -/
theorem included_mapM {m : Type → Type} [Monad m] [LawfulMonad m] (e : Excerpt α)
    (f : α → m β) :
    included <$> e.mapM f = e.included.mapM fun (i, a) => (fun b => (i, b)) <$> f a := by
  rw [included, List.mapM_append, ← zipIdx_mapM]
  unfold mapM
  cases e.last <;> simp [included]

/-! ## Together -/

/-- **The ways to ask what is there agree.** -/
structure Faithful (e : Excerpt α) : Prop where
  /-- What is had at an index is what is listed with it, -/
  get?_eq_some_iff : ∀ i a, e.get? i = some a ↔ (i, a) ∈ e.included
  /-- in order, -/
  ascending : (e.included.map Prod.fst).Pairwise (· < ·)
  /-- within the sequence, -/
  inside : ∀ i a, (i, a) ∈ e.included → i < e.length
  /-- and as often as is counted. -/
  listed : e.included.length = e.includedCount
  /-- The rest is lacking. -/
  isElided_iff : e.isElided = true ↔ ∃ i, i < e.length ∧ e.get? i = none
  lacking : e.lacking.length = e.elidedCount
  /-- A change of the elements is a change of what is had, -/
  get?_map : ∀ {β : Type} (f : α → β) i, (e.map f).get? i = (e.get? i).map f
  /-- and of what is listed, -/
  included_map : ∀ {β : Type} (f : α → β),
    (e.map f).included = e.included.map fun (i, a) => (i, f a)
  /-- made once for each element in order. -/
  once : ∀ {m : Type → Type} [Monad m] [LawfulMonad m] {β : Type} (f : α → m β),
    included <$> e.mapM f = e.included.mapM fun (i, a) => (fun b => (i, b)) <$> f a
  /-- Indices up to the largest machine word are no exception. -/
  word : e.length < wordBound → ∀ i, e.wordGet? i = e.get? i

theorem Proper.faithful (h : e.Proper) : e.Faithful where
  get?_eq_some_iff _ _ := h.mem_included.symm
  ascending := h.pairwise_included
  inside _ _ hmem := h.lt_length (h.mem_included.mp hmem)
  listed := length_included e
  isElided_iff := h.isElided_iff
  lacking := h.length_lacking
  get?_map f i := e.get?_map f i
  included_map f := e.included_map f
  once f := e.included_mapM f
  word := wordGet?_eq

/-- **Excerpts are faithful** to the sequences that they were made from,
and to themselves however they were made. -/
theorem faithful_of_made :
    (∀ {α : Type} (items : List α) (limit : Nat), ShortenedTo items limit) ∧
      ∀ {α : Type} (e : Excerpt α), Made e → e.Faithful := by
  constructor
  · exact shortenedTo
  · intro α e hmade
    exact hmade.proper.faithful

/-- The last of three elements, with none in front of it. -/
theorem faithful_of_made_last :
    let e : Excerpt Nat := ⟨[], some 7, 3⟩
    Made e ∧ e.Faithful ∧ e.get? 2 = some 7 ∧ e.included = [(2, 7)] ∧ e.lacking = [0, 1] := by
  intro e
  have hmade : Made e := .ofParts? (by decide : Excerpt.ofParts? [] (some 7) 3 = .ok e)
  exact ⟨hmade, faithful_of_made.2 e hmade, by decide, by decide, by decide⟩

end Excerpt

end Marginalia
