import Mathlib.Algebra.GroupWithZero.Nat
import Mathlib.Data.List.Induction
import Mathlib.Data.List.Nodup
import Mathlib.Logic.Function.Basic

/-!
# Record lists searched by a key

A linked list of records that is searched front to back by a key, grown at the head
and changed in place. `find` is the search, `modify` the change of the record the
search stops at, `enter` that change with the growth if need be, `group` a run of such changes,
`remove` drops every record under a key.

A journal is such a list grown at the end instead; `latest` is its last entry under a
key, and folding the entries into a table leaves exactly the latest of each key. A table
that misses entries has the latest of those that it has heard.
-/

set_option autoImplicit false

namespace Library.KeyedList

variable {κ ρ : Type*} [DecidableEq κ] (key : ρ → κ)

/-- The first record under a key. -/
def find (k : κ) (records : List ρ) : Option ρ := records.find? fun r => key r = k

/-- Change the first record under a key in place. -/
def modify (k : κ) (change : ρ → ρ) : List ρ → List ρ
  | [] => []
  | r :: rest => if key r = k then change r :: rest else r :: modify k change rest

/-- Change the record under a key, which goes in at the head first if there is none. -/
def enter (k : κ) (fresh : ρ) (change : ρ → ρ) (records : List ρ) : List ρ :=
  modify key k change
    (match find key k records with
      | none => fresh :: records
      | some _ => records)

/-- Drop the records under a key. -/
def remove (k : κ) (records : List ρ) : List ρ :=
  records.filter fun r => key r ≠ k

/-- No two records share a key. -/
def KeysUnique (records : List ρ) : Prop := (records.map key).Nodup

variable {key}

@[simp] theorem find_nil (k : κ) : find key k [] = none := rfl

theorem find_cons (k : κ) (r : ρ) (rest : List ρ) :
    find key k (r :: rest) = if key r = k then some r else find key k rest := by
  unfold find
  rw [List.find?_cons]
  by_cases here : key r = k <;> simp [here]

@[simp] theorem find_cons_self (r : ρ) (rest : List ρ) :
    find key (key r) (r :: rest) = some r := by simp [find]

theorem find_cons_of_ne {k : κ} {r : ρ} (rest : List ρ) (other : key r ≠ k) :
    find key k (r :: rest) = find key k rest := by simp [find, other]

theorem mem_of_find {k : κ} {records : List ρ} {r : ρ} (found : find key k records = some r) :
    r ∈ records ∧ key r = k := by
  exact ⟨List.mem_of_find?_eq_some found, by simpa using List.find?_some found⟩

theorem find_eq_none_iff {k : κ} {records : List ρ} :
    find key k records = none ↔ k ∉ records.map key := by
  simp [find, List.find?_eq_none]

theorem find_modify_self {k : κ} {change : ρ → ρ} (keeps : ∀ r, key r = k → key (change r) = k)
    (records : List ρ) :
    find key k (modify key k change records) = (find key k records).map change := by
  induction records with
  | nil => rfl
  | cons head tail ih =>
    by_cases here : key head = k
    · simp [modify, find_cons, here, keeps]
    · simp [modify, find_cons, here, ih]

theorem find_modify_of_ne {k other : κ} {change : ρ → ρ}
    (keeps : ∀ r, key r = k → key (change r) = k) (different : other ≠ k) (records : List ρ) :
    find key other (modify key k change records) = find key other records := by
  induction records with
  | nil => rfl
  | cons head tail ih =>
    by_cases here : key head = k
    · have notHead : k ≠ other := Ne.symm different
      simp [modify, find_cons, here, keeps, notHead]
    · simp [modify, find_cons, here, ih]

theorem map_key_modify {k : κ} {change : ρ → ρ} (keeps : ∀ r, key r = k → key (change r) = k)
    (records : List ρ) : (modify key k change records).map key = records.map key := by
  induction records with
  | nil => rfl
  | cons head tail ih =>
    by_cases here : key head = k
    · simp [modify, here, keeps]
    · simp [modify, here, ih]

@[simp] theorem modify_id (k : κ) (records : List ρ) : modify key k id records = records := by
  induction records with
  | nil => rfl
  | cons head tail ih => simp [modify, ih]

omit [DecidableEq κ] in
theorem KeysUnique.nil : KeysUnique key [] := List.nodup_nil

theorem KeysUnique.modify {k : κ} {change : ρ → ρ} (keeps : ∀ r, key r = k → key (change r) = k)
    {records : List ρ} (unique : KeysUnique key records) :
    KeysUnique key (KeyedList.modify key k change records) := by
  rw [KeysUnique, map_key_modify keeps]
  exact unique

/-- A record goes in at the head after the search for its key came back empty. -/
theorem KeysUnique.cons {r : ρ} {records : List ρ} (unique : KeysUnique key records)
    (absent : find key (key r) records = none) : KeysUnique key (r :: records) :=
  List.nodup_cons.mpr ⟨find_eq_none_iff.mp absent, unique⟩

/-- With unique keys every record is the first under its key. -/
theorem KeysUnique.find_of_mem {r : ρ} {records : List ρ} (unique : KeysUnique key records)
    (member : r ∈ records) : find key (key r) records = some r := by
  induction records with
  | nil => cases member
  | cons head tail ih =>
    obtain ⟨new, unique⟩ := List.nodup_cons.mp unique
    rcases List.mem_cons.mp member with rfl | later
    · exact find_cons_self r tail
    · have other : key head ≠ key r := fun same => new (List.mem_map.mpr ⟨r, later, same.symm⟩)
      rw [find_cons_of_ne tail other]
      exact ih unique later

omit [DecidableEq κ] in
theorem KeysUnique.sublist {nonempty records : List ρ} (unique : KeysUnique key records)
    (sub : nonempty.Sublist records) : KeysUnique key nonempty :=
  List.Nodup.sublist (sub.map key) unique

/-! ### Entering a record -/

section Enter

variable {k : κ} {fresh : ρ} {change : ρ → ρ}

theorem find_enter_self (keeps : ∀ r, key r = k → key (change r) = k) (own : key fresh = k)
    (records : List ρ) :
    find key k (enter key k fresh change records) =
      some (change ((find key k records).getD fresh)) := by
  unfold enter
  rw [find_modify_self keeps]
  cases found : find key k records with
  | none => simp [find, own]
  | some r => simp [found]

theorem find_enter_of_ne (keeps : ∀ r, key r = k → key (change r) = k) (own : key fresh = k)
    {other : κ} (different : other ≠ k) (records : List ρ) :
    find key other (enter key k fresh change records) = find key other records := by
  unfold enter
  rw [find_modify_of_ne keeps different]
  cases find key k records with
  | none => exact find_cons_of_ne records (own ▸ Ne.symm different)
  | some r => rfl

theorem mem_keys_enter (keeps : ∀ r, key r = k → key (change r) = k) (own : key fresh = k)
    {x : κ} {records : List ρ} :
    x ∈ (enter key k fresh change records).map key ↔ x = k ∨ x ∈ records.map key := by
  unfold enter
  rw [map_key_modify keeps]
  cases found : find key k records with
  | none => simp [own]
  | some r =>
    obtain ⟨member, here⟩ := mem_of_find found
    refine ⟨Or.inr, ?_⟩
    rintro (rfl | inside)
    · exact here ▸ List.mem_map_of_mem member
    · exact inside

theorem KeysUnique.enter (keeps : ∀ r, key r = k → key (change r) = k) (own : key fresh = k)
    {records : List ρ} (unique : KeysUnique key records) :
    KeysUnique key (KeyedList.enter key k fresh change records) := by
  unfold KeyedList.enter
  apply KeysUnique.modify keeps
  cases found : find key k records with
  | none => exact unique.cons (own ▸ found)
  | some r => exact unique

/-- What a change adds to a sum over the records. -/
theorem sum_map_modify {f : ρ → Nat} {n : Nat} {r : ρ} {records : List ρ}
    (found : find key k records = some r) (grows : f (change r) = f r + n) :
    ((modify key k change records).map f).sum = (records.map f).sum + n := by
  induction records with
  | nil => cases found
  | cons head tail ih =>
    rw [find_cons] at found
    unfold modify
    split at found
    next here =>
      obtain rfl := Option.some.inj found
      rw [if_pos here, List.map_cons, List.map_cons, List.sum_cons, List.sum_cons, grows]
      omega
    next other =>
      rw [if_neg other, List.map_cons, List.map_cons, List.sum_cons, List.sum_cons, ih found]
      omega

/-- A fresh record counts for nothing. -/
theorem sum_map_enter {f : ρ → Nat} {n : Nat} (own : key fresh = k) (zero : f fresh = 0)
    (grows : ∀ r, f (change r) = f r + n) (records : List ρ) :
    ((enter key k fresh change records).map f).sum = (records.map f).sum + n := by
  unfold enter
  cases found : find key k records with
  | none =>
    have here : find key k (fresh :: records) = some fresh := by simp [find, own]
    rw [sum_map_modify here (grows fresh), List.map_cons, List.sum_cons, zero, Nat.zero_add]
  | some r => exact sum_map_modify found (grows r)

end Enter

/-! ### Grouping entries -/

section Group

variable {ε : Type*} {keyOf : ε → κ} {fresh : κ → ρ} {change : ε → ρ → ρ}

variable (key keyOf fresh change) in
/-- Every entry changes the record under its key. -/
def group (entries : List ε) (records : List ρ) : List ρ :=
  entries.foldl (fun records e => enter key (keyOf e) (fresh (keyOf e)) (change e) records) records

theorem group_cons (e : ε) (entries : List ε) (records : List ρ) :
    group key keyOf fresh change (e :: entries) records =
      group key keyOf fresh change entries
        (enter key (keyOf e) (fresh (keyOf e)) (change e) records) := rfl

theorem KeysUnique.group (keeps : ∀ e r, key r = keyOf e → key (change e r) = keyOf e)
    (own : ∀ k, key (fresh k) = k) (entries : List ε) {records : List ρ}
    (unique : KeysUnique key records) :
    KeysUnique key (KeyedList.group key keyOf fresh change entries records) := by
  induction entries generalizing records with
  | nil => exact unique
  | cons e entries ih => exact ih (unique.enter (keeps e) (own _))

theorem mem_keys_group (keeps : ∀ e r, key r = keyOf e → key (change e r) = keyOf e)
    (own : ∀ k, key (fresh k) = k) {k : κ} {entries : List ε} {records : List ρ} :
    k ∈ (group key keyOf fresh change entries records).map key ↔
      k ∈ records.map key ∨ ∃ e ∈ entries, keyOf e = k := by
  induction entries generalizing records with
  | nil => simp [group]
  | cons e entries ih =>
    rw [group_cons, ih, mem_keys_enter (keeps e) (own _), List.exists_mem_cons_iff,
      or_comm (a := k = _), or_assoc, eq_comm (a := k)]

/-- The record of a key has seen the entries of that key, in order. -/
theorem find_group (keeps : ∀ e r, key r = keyOf e → key (change e r) = keyOf e)
    (own : ∀ k, key (fresh k) = k) (k : κ) (entries : List ε) (records : List ρ) :
    (find key k (group key keyOf fresh change entries records)).getD (fresh k) =
      (entries.filter (keyOf · = k)).foldl (fun r e => change e r)
        ((find key k records).getD (fresh k)) := by
  induction entries generalizing records with
  | nil => rfl
  | cons e entries ih =>
    rw [group_cons, ih]
    by_cases here : keyOf e = k
    · subst here
      rw [find_enter_self (keeps e) (own _), List.filter_cons_of_pos (by simp)]
      rfl
    · rw [find_enter_of_ne (keeps e) (own _) (Ne.symm here), List.filter_cons_of_neg (by simpa)]

end Group

theorem mem_remove {k : κ} {r : ρ} {records : List ρ} :
    r ∈ remove key k records ↔ r ∈ records ∧ key r ≠ k := by
  simp [remove]

/-- With unique keys a record and those under other keys are all. -/
theorem KeysUnique.perm_cons_remove {r : ρ} {records : List ρ} (unique : KeysUnique key records)
    (member : r ∈ records) : records.Perm (r :: remove key (key r) records) := by
  induction records with
  | nil => cases member
  | cons head tail ih =>
    obtain ⟨new, unique⟩ := List.nodup_cons.mp unique
    rcases List.mem_cons.mp member with rfl | later
    · have others : remove key (key r) (r :: tail) = tail := by
        have all : remove key (key r) tail = tail := List.filter_eq_self.mpr fun s inside => by
          simpa using fun same => new (List.mem_map.mpr ⟨s, inside, same⟩)
        simpa [remove] using all
      rw [others]
    · have other : key head ≠ key r := fun same => new (List.mem_map.mpr ⟨r, later, same.symm⟩)
      have cons : remove key (key r) (head :: tail) = head :: remove key (key r) tail := by
        simp [remove, other]
      rw [cons]
      exact ((ih unique later).cons head).trans (List.Perm.swap r head _)

theorem find_remove_of_ne {k other : κ} (different : other ≠ k) (records : List ρ) :
    find key other (remove key k records) = find key other records := by
  induction records with
  | nil => rfl
  | cons head tail ih =>
    by_cases here : key head = k
    · have notHead : k ≠ other := Ne.symm different
      simpa [remove, find_cons, here, notHead] using ih
    · simp only [remove, ne_eq, here, not_false_eq_true, decide_true, List.filter_cons_of_pos,
        find_cons]
      rw [← ih]
      rfl

theorem find_filter {k : κ} {records : List ρ} {r : ρ} (holds : ρ → Prop) [DecidablePred holds]
    (found : find key k records = some r) (here : holds r) :
    find key k (records.filter holds) = some r := by
  induction records with
  | nil => simp at found
  | cons head tail ih =>
    by_cases same : key head = k
    · obtain rfl : head = r := by simpa [find_cons, same] using found
      simp [here, find_cons, same]
    · have inTail : find key k tail = some r := by simpa [find_cons, same] using found
      by_cases keep : holds head
      · simpa [keep, find_cons, same] using ih inTail
      · simpa [keep] using ih inTail

theorem find_map {τ : Type*} (image : τ → ρ) (k : κ) (records : List τ) :
    find key k (records.map image) = (find (fun r => key (image r)) k records).map image := by
  exact List.find?_map

/-- The image of a change, which needs to fit at the record that is changed only. -/
theorem modify_map {τ : Type*} (image : τ → ρ) (k : κ) {change : ρ → ρ} {change' : τ → τ}
    (records : List τ)
    (same : ∀ r, find (fun r => key (image r)) k records = some r →
      image (change' r) = change (image r)) :
    (modify (fun r => key (image r)) k change' records).map image =
      modify key k change (records.map image) := by
  induction records with
  | nil => rfl
  | cons head tail ih =>
    simp only [find_cons] at same
    rw [modify, List.map_cons, modify]
    split at same
    next here =>
      rw [if_pos here, if_pos here, List.map_cons, same head rfl]
    next other =>
      rw [if_neg other, if_neg other, List.map_cons, ih same]

/-! ### Journals -/

variable (key)

/-- The last entry of a journal under a key. -/
def latest (k : κ) (journal : List ρ) : Option ρ := find key k journal.reverse

variable {key}

theorem latest_concat (k : κ) (journal : List ρ) (entry : ρ) :
    latest key k (journal ++ [entry]) =
      if key entry = k then some entry else latest key k journal := by
  rw [latest, List.reverse_concat, find_cons]
  rfl

theorem latest_filter {k : κ} {journal : List ρ} {entry : ρ} (holds : ρ → Prop)
    [DecidablePred holds] (last : latest key k journal = some entry) (here : holds entry) :
    latest key k (journal.filter holds) = some entry := by
  rw [latest, ← List.filter_reverse]
  exact find_filter holds last here

theorem latest_map {τ : Type*} (image : τ → ρ) (k : κ) (journal : List τ) :
    latest key k (journal.map image) = (latest (fun e => key (image e)) k journal).map image := by
  rw [latest, ← List.map_reverse]
  exact find_map image k journal.reverse

theorem foldl_update_apply {β : Type*} (value : ρ → β) (journal : List ρ) (k : κ) :
    journal.foldl (fun table entry => Function.update table (key entry) (some (value entry)))
      (fun _ => none) k = (latest key k journal).map value := by
  induction journal using List.reverseRecOn with
  | nil => rfl
  | append_singleton journal entry ih =>
    rw [List.foldl_append, List.foldl_cons, List.foldl_nil, latest_concat]
    by_cases same : key entry = k
    · simp [← same]
    · rw [Function.update_of_ne (Ne.symm same), ih, if_neg same]

theorem latest_eq_some_iff {k : κ} {journal : List ρ} {entry : ρ} :
    latest key k journal = some entry ↔
      ∃ before after, journal = before ++ entry :: after ∧ key entry = k ∧
        ∀ later ∈ after, key later ≠ k := by
  rw [latest, find, List.find?_eq_some_iff_append]
  constructor
  · rintro ⟨here, behind, ahead, split, silent⟩
    refine ⟨ahead.reverse, behind.reverse, ?_, by simpa using here, by simpa using silent⟩
    rw [← journal.reverse_reverse, split]
    simp
  · rintro ⟨before, after, rfl, here, silent⟩
    exact ⟨by simpa using here, after.reverse, before.reverse, by simp, by simpa using silent⟩

/-! ### Tables that miss entries -/

section Replica

variable {β : Type*} (heard : ρ → Option (κ × β))

/-- A table that is kept from what is heard of the entries. -/
def replica (journal : List ρ) : κ → Option β :=
  journal.foldl (fun table entry => (heard entry).elim table fun (k, value) =>
    Function.update table k (some value)) fun _ => none

/-- The key under which an entry is heard, if it is. -/
def heardKey (entry : ρ) : Option κ := (heard entry).map Prod.fst

theorem replica_apply (journal : List ρ) (k : κ) :
    replica heard journal k =
      (latest (heardKey heard) (some k) journal).bind fun entry => (heard entry).map Prod.snd := by
  induction journal using List.reverseRecOn with
  | nil => rfl
  | append_singleton journal entry ih =>
    rw [replica, List.foldl_append, ← replica, latest_concat, List.foldl_cons, List.foldl_nil,
      heardKey]
    cases got : heard entry with
    | none => simpa using ih
    | some pair =>
      obtain ⟨k', value⟩ := pair
      by_cases same : k' = k
      · simp [same, got]
      · simp only [Option.elim_some, Option.map_some, Option.some.injEq, if_neg same]
        rw [Function.update_of_ne (Ne.symm same), ih]

variable {heard} {value : ρ → β}

/-- What a replica holds under a key is the value of an entry of that key behind which none of
the key was heard. -/
theorem exists_of_replica {journal : List ρ}
    (faithful : ∀ entry ∈ journal, ∀ k b, heard entry = some (k, b) →
      k = key entry ∧ b = value entry)
    {k : κ} {b : β} (holds : replica heard journal k = some b) :
    ∃ before entry after, journal = before ++ entry :: after ∧ key entry = k ∧ value entry = b ∧
      ∀ later ∈ after, key later = k → heard later = none := by
  rw [replica_apply] at holds
  obtain ⟨entry, last, got⟩ := Option.bind_eq_some_iff.mp holds
  obtain ⟨⟨k', b'⟩, heard', rfl⟩ := Option.map_eq_some_iff.mp got
  obtain ⟨before, after, split, here, silent⟩ := latest_eq_some_iff.mp last
  rw [heardKey, heard', Option.map_some, Option.some.injEq] at here
  obtain ⟨own, value'⟩ := faithful entry (by simp [split]) k' b' heard'
  refine ⟨before, entry, after, split, own.symm.trans here, value'.symm, ?_⟩
  intro later inside mine
  cases other : heard later with
  | none => rfl
  | some pair =>
    have key' := (faithful later (by simp [split, inside]) pair.1 pair.2 other).1
    have unheard := silent later inside
    rw [heardKey, other, Option.map_some, key', mine] at unheard
    exact absurd rfl unheard

/-- A replica that has heard the latest entry of a key, if there is one, holds its value. -/
theorem replica_of_latest {journal : List ρ}
    (faithful : ∀ entry ∈ journal, ∀ k b, heard entry = some (k, b) →
      k = key entry ∧ b = value entry)
    {k : κ} (got : ∀ entry ∈ latest key k journal, heard entry = some (key entry, value entry)) :
    replica heard journal k = (latest key k journal).map value := by
  cases last : latest key k journal with
  | none =>
    cases holds : replica heard journal k with
    | none => rfl
    | some b =>
      obtain ⟨before, entry, after, split, here, -⟩ := exists_of_replica faithful holds
      have inside : k ∈ journal.reverse.map key := by simp [split, here]
      exact absurd inside (find_eq_none_iff.mp last)
  | some entry =>
    obtain ⟨before, after, split, here, silent⟩ := latest_eq_some_iff.mp last
    have heard' := got entry last
    have latest' : latest (heardKey heard) (some k) journal = some entry := by
      refine latest_eq_some_iff.mpr ⟨before, after, split, ?_, fun later inside => ?_⟩
      · rw [heardKey, heard', Option.map_some, here]
      · cases other : heard later with
        | none => simp [heardKey, other]
        | some pair =>
          rw [heardKey, other, Option.map_some,
            (faithful later (by simp [split, inside]) pair.1 pair.2 other).1]
          exact fun same => silent later inside (Option.some.inj same)
    rw [replica_apply, latest', Option.bind_some, heard']
    rfl

end Replica

end Library.KeyedList
