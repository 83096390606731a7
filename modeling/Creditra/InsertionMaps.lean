import Mathlib.Data.List.Nodup

/-!
# Maps in insertion order

A map of this kind lists its entries in the order in which their keys were
first inserted, with no key twice. Setting a present key keeps its place;
deleting a key and setting it again moves it to the end. Reading is described
by `get` alone, and the lemmas say what each operation does to every `get`.
-/
namespace Creditra.InsertionMaps

structure InsertionMap (κ α : Type) where
  entries : List (κ × α)
  nodup : (entries.map Prod.fst).Nodup

namespace InsertionMap
variable {κ α : Type}

def empty : InsertionMap κ α := ⟨[],List.nodup_nil⟩

instance : Inhabited (InsertionMap κ α) := ⟨empty⟩

/-- Keep the entries that pass a test. -/
def filter (m : InsertionMap κ α) (p : κ × α → Bool) : InsertionMap κ α :=
  ⟨m.entries.filter p,m.nodup.sublist (List.filter_sublist.map _)⟩

variable [DecidableEq κ]

def get (m : InsertionMap κ α) (k : κ) : Option α :=
  (m.entries.find? (·.1 = k)).map Prod.snd

def replace (k : κ) (a : α) (e : κ × α) : κ × α := if e.1 = k then (k,a) else e

theorem replace_fst (k : κ) (a : α) (e : κ × α) : (replace k a e).1 = e.1 := by
  unfold replace
  split
  · rename_i h
    exact h.symm
  · rfl

def set (m : InsertionMap κ α) (k : κ) (a : α) : InsertionMap κ α :=
  if h : k ∈ m.entries.map Prod.fst then
    ⟨m.entries.map (replace k a),by
      rw [List.map_map]
      exact (List.map_congr_left fun e _ => replace_fst k a e) ▸ m.nodup⟩
  else
    ⟨m.entries ++ [(k,a)],by
      rw [List.map_append,List.nodup_append]
      exact ⟨m.nodup,List.nodup_singleton k,by
        intro x hx y hy hxy
        rw [List.map_singleton,List.mem_singleton] at hy
        rw [hxy,hy] at hx
        exact h hx⟩⟩

def delete (m : InsertionMap κ α) (k : κ) : InsertionMap κ α := m.filter (·.1 ≠ k)

theorem get_eq_some {m : InsertionMap κ α} {k : κ} {a : α} :
    m.get k = some a ↔ (k,a) ∈ m.entries := by
  obtain ⟨es,hes⟩ := m
  simp only [get]
  induction es with
  | nil => simp
  | cons e es ih =>
      rw [List.map_cons,List.nodup_cons] at hes
      rw [List.find?_cons,List.mem_cons]
      by_cases hk : e.1 = k
      · have hnot : (k,a) ∉ es := by
          intro hmem
          exact hes.1 (hk ▸ List.mem_map_of_mem (f := Prod.fst) hmem)
        simp only [hk,decide_true,Option.map_some,Option.some.injEq,hnot,or_false]
        constructor
        · intro ha
          rw [← hk,← ha]
        · intro he
          rw [← he]
      · have hne : (k,a) ≠ e := by
          intro he
          exact hk (by rw [← he])
        simp only [hk,decide_false,hne,false_or]
        exact ih hes.2

@[simp] theorem get_empty (k : κ) : (empty : InsertionMap κ α).get k = none := rfl

theorem get_filter_eq_some {m : InsertionMap κ α} {p : κ × α → Bool} {k : κ} {a : α} :
    (m.filter p).get k = some a ↔ m.get k = some a ∧ p (k,a) = true := by
  rw [get_eq_some,get_eq_some]
  exact List.mem_filter

@[simp] theorem get_delete_self (m : InsertionMap κ α) (k : κ) : (m.delete k).get k = none := by
  rw [Option.eq_none_iff_forall_ne_some]
  intro a ha
  have hp := (get_filter_eq_some.mp ha).2
  simp at hp

theorem get_delete_of_ne (m : InsertionMap κ α) {k k' : κ} (h : k' ≠ k) :
    (m.delete k).get k' = m.get k' := by
  apply Option.ext
  intro a
  rw [delete,get_filter_eq_some]
  simp [h]

@[simp] theorem get_set_self (m : InsertionMap κ α) (k : κ) (a : α) :
    (m.set k a).get k = some a := by
  rw [get_eq_some,set]
  split
  · rename_i hk
    obtain ⟨e,he,hek⟩ := List.mem_map.mp hk
    exact List.mem_map.mpr ⟨e,he,if_pos hek⟩
  · simp

theorem get_set_of_ne (m : InsertionMap κ α) {k k' : κ} (h : k' ≠ k) (a : α) :
    (m.set k a).get k' = m.get k' := by
  apply Option.ext
  intro b
  rw [get_eq_some,get_eq_some,set]
  split
  · constructor
    · intro hb
      obtain ⟨e,he,hr⟩ := List.mem_map.mp hb
      by_cases hk : e.1 = k
      · rw [replace,if_pos hk] at hr
        exact absurd (congrArg Prod.fst hr).symm h
      · rw [replace,if_neg hk] at hr
        exact hr ▸ he
    · intro hb
      exact List.mem_map.mpr ⟨(k',b),hb,if_neg h⟩
  · simp [h]

/-- Of two settings of one key the second counts. -/
theorem set_set (m : InsertionMap κ α) (k : κ) (a b : α) : (m.set k a).set k b = m.set k b := by
  have hself : ∀ c : α, k ∈ (m.set k c).entries.map Prod.fst := by
    intro c
    exact List.mem_map.mpr ⟨(k,c),get_eq_some.mp (get_set_self m k c),rfl⟩
  have htwice : ∀ e : κ × α, replace k b (replace k a e) = replace k b e := by
    intro e
    by_cases he : e.1 = k
    · simp [replace,he]
    · simp [replace,he]
  have hentries : ((m.set k a).set k b).entries = (m.set k b).entries := by
    rw [set,dif_pos (hself a)]
    by_cases hk : k ∈ m.entries.map Prod.fst
    · simp only [set,dif_pos hk,List.map_map]
      exact List.map_congr_left fun e _ => htwice e
    · have hsame : ∀ e ∈ m.entries, replace k b e = e := by
        intro e he
        refine if_neg fun heq => hk ?_
        exact List.mem_map.mpr ⟨e,he,heq⟩
      simp only [set,dif_neg hk,List.map_append,List.map_singleton]
      rw [List.map_congr_left hsame,List.map_id']
      simp [replace]
  cases h : (m.set k a).set k b
  cases h' : m.set k b
  rw [h,h'] at hentries
  congr

/-- What a `get` finds after a `set` has just been set, or was there under another key. -/
theorem get_set_cases {m : InsertionMap κ α} {k k' : κ} {a b : α}
    (h : (m.set k a).get k' = some b) : k' = k ∧ b = a ∨ k' ≠ k ∧ m.get k' = some b := by
  by_cases hk : k' = k
  · rw [hk,get_set_self] at h
    exact .inl ⟨hk,(Option.some.inj h).symm⟩
  · rw [get_set_of_ne m hk] at h
    exact .inr ⟨hk,h⟩

/-- What holds of every entry holds after an entry with it is set. -/
theorem forall_get_set {m : InsertionMap κ α} {P : κ → α → Prop}
    (h : ∀ k a, m.get k = some a → P k a) {k : κ} {a : α} (ha : P k a) :
    ∀ k' a', (m.set k a).get k' = some a' → P k' a' := by
  intro k' a' hget
  rcases get_set_cases hget with ⟨rfl,rfl⟩ | ⟨-,hold⟩
  · exact ha
  · exact h k' a' hold

/-- What holds of every entry holds of every `get`. -/
theorem forall_entries {m : InsertionMap κ α} {P : κ → α → Prop} :
    (∀ e ∈ m.entries, P e.1 e.2) ↔ ∀ k a, m.get k = some a → P k a := by
  constructor
  · intro h k a hget
    exact h (k,a) (get_eq_some.mp hget)
  · intro h e he
    exact h e.1 e.2 (get_eq_some.mpr he)

theorem get_singleton {k k' : κ} {a a' : α}
    (h : ((empty : InsertionMap κ α).set k a).get k' = some a') : k' = k ∧ a' = a := by
  revert k' a'
  apply forall_get_set
  · intro k' a' hget
    cases hget
  · exact ⟨rfl,rfl⟩

theorem forall_get_delete {m : InsertionMap κ α} {P : κ → α → Prop}
    (h : ∀ k a, m.get k = some a → P k a) (k : κ) :
    ∀ k' a', (m.delete k).get k' = some a' → P k' a' := by
  intro k' a' hget
  exact h k' a' (get_filter_eq_some.mp hget).1

/-! ## Entries that exclude each other -/

section Exclusive
variable {β : Type} {owner : α → β} {active : α → Bool}

/-- No two active entries have one owner. -/
def Exclusive (m : InsertionMap κ α) (owner : α → β) (active : α → Bool) : Prop :=
  ∀ k k' a a', m.get k = some a → m.get k' = some a' → owner a = owner a' →
    active a = true → active a' = true → k = k'

theorem exclusive_delete {m : InsertionMap κ α} (h : m.Exclusive owner active) (k : κ) :
    (m.delete k).Exclusive owner active := by
  intro k₁ k₂ a₁ a₂ h₁ h₂
  exact h k₁ k₂ a₁ a₂ (get_filter_eq_some.mp h₁).1 (get_filter_eq_some.mp h₂).1

theorem exclusive_empty : (empty : InsertionMap κ α).Exclusive owner active := by
  intro k k' a a' h
  cases h

variable [DecidableEq β]

/-- Another entry of the owner is active. -/
def taken (m : InsertionMap κ α) (owner : α → β) (active : α → Bool) (k : κ) (b : β) : Bool :=
  m.entries.any fun e => e.1 ≠ k && owner e.2 = b && active e.2

theorem taken_eq_false {m : InsertionMap κ α} {k : κ} {b : β} :
    m.taken owner active k b = false ↔
      ∀ k' a, m.get k' = some a → k' ≠ k → owner a = b → active a = false := by
  unfold taken
  rw [List.any_eq_false]
  constructor
  · intro h k' a hget hk hb
    have hno := h (k',a) (get_eq_some.mp hget)
    simpa [hk,hb] using hno
  · intro h e he
    have hno := h e.1 e.2 (get_eq_some.mpr he)
    by_cases hk : e.1 = k
    · simp [hk]
    · by_cases hb : owner e.2 = b
      · simp [hno hk hb]
      · simp [hb]

/-- An active entry may be set where no other entry of its owner is active. -/
theorem exclusive_set {m : InsertionMap κ α} (h : m.Exclusive owner active) {k : κ} {a : α}
    (ha : active a = true → m.taken owner active k (owner a) = false) :
    (m.set k a).Exclusive owner active := by
  have hother : ∀ k' a', m.get k' = some a' → k' ≠ k → owner a' = owner a → active a = true →
      active a' = true → False := by
    intro k' a' hget hk howner hactive hactive'
    have hno := taken_eq_false.mp (ha hactive) k' a' hget hk howner
    rw [hactive'] at hno
    cases hno
  intro k₁ k₂ a₁ a₂ h₁ h₂ howner hactive₁ hactive₂
  by_cases hk₁ : k₁ = k
  · by_cases hk₂ : k₂ = k
    · rw [hk₁,hk₂]
    · rw [hk₁,get_set_self,Option.some.injEq] at h₁
      subst h₁
      rw [get_set_of_ne m hk₂] at h₂
      exact (hother k₂ a₂ h₂ hk₂ howner.symm hactive₁ hactive₂).elim
  · rw [get_set_of_ne m hk₁] at h₁
    by_cases hk₂ : k₂ = k
    · rw [hk₂,get_set_self,Option.some.injEq] at h₂
      subst h₂
      exact (hother k₁ a₁ h₁ hk₁ howner hactive₂ hactive₁).elim
    · rw [get_set_of_ne m hk₂] at h₂
      exact h k₁ k₂ a₁ a₂ h₁ h₂ howner hactive₁ hactive₂

end Exclusive

/-! ## Values under a function -/

section MapValues
variable {β : Type}

/-- The same keys, each value replaced by its image. -/
def mapValues (f : α → β) (m : InsertionMap κ α) : InsertionMap κ β :=
  ⟨m.entries.map fun e => (e.1,f e.2),by
    rw [List.map_map]
    exact m.nodup⟩

theorem get_mapValues (f : α → β) (m : InsertionMap κ α) (k : κ) :
    (m.mapValues f).get k = (m.get k).map f := by
  unfold get mapValues
  rw [List.find?_map,Option.map_map,Option.map_map]
  rfl

theorem mapValues_set (f : α → β) (m : InsertionMap κ α) (k : κ) (a : α) :
    (m.set k a).mapValues f = (m.mapValues f).set k (f a) := by
  have hkeys : (m.mapValues f).entries.map Prod.fst = m.entries.map Prod.fst := List.map_map
  unfold set
  by_cases hk : k ∈ m.entries.map Prod.fst
  · rw [dif_pos hk,dif_pos (hkeys ▸ hk)]
    simp only [mapValues,mk.injEq,List.map_map]
    apply List.map_congr_left
    intro e _
    simp only [Function.comp,replace]
    split <;> rfl
  · rw [dif_neg hk,dif_neg (hkeys ▸ hk)]
    simp [mapValues]

end MapValues

def keys (m : InsertionMap κ α) : List κ := m.entries.map Prod.fst

theorem mem_keys {m : InsertionMap κ α} {k : κ} : k ∈ m.keys ↔ (m.get k).isSome := by
  rw [Option.isSome_iff_exists,keys,List.mem_map]
  constructor
  · rintro ⟨⟨k',a⟩,he,rfl⟩
    exact ⟨a,get_eq_some.mpr he⟩
  · rintro ⟨a,ha⟩
    exact ⟨(k,a),get_eq_some.mp ha,rfl⟩

theorem keys_set_of_mem {m : InsertionMap κ α} {k : κ} (h : k ∈ m.keys) (a : α) :
    (m.set k a).keys = m.keys := by
  unfold keys at h
  unfold set
  rw [dif_pos h]
  simp only [keys,List.map_map]
  exact List.map_congr_left fun e _ => replace_fst k a e

theorem keys_set_of_not_mem {m : InsertionMap κ α} {k : κ} (h : k ∉ m.keys) (a : α) :
    (m.set k a).keys = m.keys ++ [k] := by
  unfold keys at h
  unfold set
  rw [dif_neg h]
  simp [keys]

/-- Setting a key to the value it has changes nothing. -/
theorem set_of_get {m : InsertionMap κ α} {k : κ} {a : α} (h : m.get k = some a) :
    m.set k a = m := by
  have hmem : k ∈ m.keys := mem_keys.mpr (Option.isSome_iff_exists.mpr ⟨a,h⟩)
  unfold keys at hmem
  unfold set
  rw [dif_pos hmem]
  congr 1
  have hid : ∀ e ∈ m.entries, replace k a e = e := by
    intro e he
    unfold replace
    split
    · rename_i hk
      have hsame := get_eq_some.mpr he
      rw [hk,h,Option.some.injEq] at hsame
      exact Prod.ext hk.symm hsame
    · rfl
  exact (List.map_congr_left hid).trans (List.map_id _)

theorem entries_set_of_none {m : InsertionMap κ α} {k : κ} (h : m.get k = none) (a : α) :
    (m.set k a).entries = m.entries ++ [(k,a)] := by
  have hmem : k ∉ m.keys := by
    rw [mem_keys,h]
    exact Bool.false_ne_true
  unfold keys at hmem
  unfold set
  rw [dif_neg hmem]

/-- `new Map(entries)`. -/
def ofEntries (entries : List (κ × α)) : InsertionMap κ α :=
  entries.foldl (fun m e => m.set e.1 e.2) empty

theorem get_foldl_set {entries : List (κ × α)} (h : (entries.map Prod.fst).Nodup)
    (m : InsertionMap κ α) (k : κ) (a : α) :
    (entries.foldl (fun m e => m.set e.1 e.2) m).get k = some a ↔
      (k,a) ∈ entries ∨ k ∉ entries.map Prod.fst ∧ m.get k = some a := by
  induction entries generalizing m with
  | nil => simp
  | cons e entries ih =>
      rw [List.map_cons,List.nodup_cons] at h
      rw [List.foldl_cons,ih h.2,List.mem_cons,List.map_cons,List.mem_cons]
      by_cases hk : k = e.1
      · subst hk
        have hnot : (e.1,a) ∉ entries := by
          intro hmem
          exact h.1 (List.mem_map.mpr ⟨(e.1,a),hmem,rfl⟩)
        simp only [get_set_self,hnot,h.1,Option.some.injEq,not_false_eq_true,true_and,false_or,
          or_false,not_true_eq_false,false_and]
        constructor
        · intro ha
          rw [← ha]
        · intro he
          rw [← he]
      · have hne : (k,a) ≠ e := by
          intro he
          exact hk (by rw [← he])
        rw [get_set_of_ne m hk]
        simp [hk,hne]

theorem get_ofEntries {entries : List (κ × α)} (h : (entries.map Prod.fst).Nodup) {k : κ} {a : α} :
    (ofEntries entries).get k = some a ↔ (k,a) ∈ entries := by
  unfold ofEntries
  rw [get_foldl_set h]
  simp

end InsertionMap
end Creditra.InsertionMaps
