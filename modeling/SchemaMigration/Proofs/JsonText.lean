import SchemaMigration.Proofs.JsonScan

/-!
# JSON values and their texts

A value is assembled from its tokens, and read back from its compact text.
-/

namespace SchemaMigration.Json

namespace Value

/-- Induction on the items of arrays and the members of objects. -/
@[elab_as_elim]
theorem induction {motive : Value → Prop} (scalar : ∀ leaf, motive (.scalar leaf))
    (array : ∀ items, (∀ item ∈ items, motive item) → motive (.array items))
    (object : ∀ members, (∀ member ∈ members, motive member.2) → motive (.object members)) :
    ∀ value, motive value
  | .scalar leaf => scalar leaf
  | .array items => array items fun item _ => induction scalar array object item
  | .object members => object members fun member hmember =>
      have := List.sizeOf_lt_of_mem hmember
      induction scalar array object member.2
termination_by value => value
decreasing_by
  · decreasing_trivial
  · cases member; simp at this ⊢; omega

/-! ## Assembling -/

/-- The value that these tokens are, wherever a value may stand. -/
def Assembles (value : Value) : Prop :=
  ∀ frames, value.tokens.foldlM Assembly.next? ⟨frames, .value⟩ =
    some ⟨frames, .afterValue value⟩

/-- The first item of an array is assembled as any other value. -/
theorem foldlM_firstItem (first : Value) (rest : List Value) (frames : List Frame)
    (after : List Token) :
    (itemTokens (first :: rest) ++ after).foldlM Assembly.next? ⟨.array [] :: frames, .firstItem⟩ =
      (itemTokens (first :: rest) ++ after).foldlM Assembly.next?
        ⟨.array [] :: frames, .value⟩ := by
  -- Only a closing bracket tells the two states apart, and no value begins with one.
  cases rest <;> cases first <;> rw [itemTokens, tokens] <;> rfl

/-- The first member of an object is assembled as any other. -/
theorem foldlM_firstMember (first : Text × Value) (rest : List (Text × Value))
    (frames : List Frame) (after : List Token) :
    (memberTokens (first :: rest) ++ after).foldlM Assembly.next?
        ⟨.object [] :: frames, .firstMember⟩ =
      (memberTokens (first :: rest) ++ after).foldlM Assembly.next?
        ⟨.object [] :: frames, .memberName⟩ := by
  cases rest <;> rw [memberTokens] <;> rfl

theorem Assembles.append {value : Value} (hvalue : value.Assembles) (frames : List Frame)
    (after : List Token) :
    (value.tokens ++ after).foldlM Assembly.next? ⟨frames, .value⟩ =
      after.foldlM Assembly.next? ⟨frames, .afterValue value⟩ := by
  rw [List.foldlM_append, hvalue frames]
  rfl

theorem Assembles.member {value : Value} (hvalue : value.Assembles) (frames : List Frame)
    (read : List (Text × Value)) (name : Text) (after : List Token) :
    (.scalar (.string name) :: .colon :: (value.tokens ++ after)).foldlM Assembly.next?
        ⟨.object read :: frames, .memberName⟩ =
      after.foldlM Assembly.next? ⟨.member read name :: frames, .afterValue value⟩ := by
  rw [← hvalue.append (.member read name :: frames)]
  rfl

theorem foldlM_itemTokens {first : Value} {rest : List Value}
    (hitems : ∀ item ∈ first :: rest, item.Assembles) (frames : List Frame) (read : List Value) :
    (itemTokens (first :: rest) ++ [Token.closeArray]).foldlM Assembly.next?
        ⟨.array read :: frames, .value⟩ =
      some ⟨frames, .afterValue (.array (read.reverse ++ first :: rest))⟩ := by
  have hfirst := hitems first List.mem_cons_self
  -- On the items that follow the first, with those read so far growing in reverse.
  induction rest generalizing first read with
  | nil =>
    rw [itemTokens, hfirst.append, ← List.reverse_cons]
    rfl
  | cons second rest ih =>
    have hrest := fun item hitem => hitems item (List.mem_cons_of_mem first hitem)
    have hcomma : Assembly.next? ⟨.array read :: frames, .afterValue first⟩ .comma =
        some ⟨.array (first :: read) :: frames, .value⟩ := rfl
    rw [itemTokens, List.append_assoc, hfirst.append, List.cons_append, List.foldlM_cons, hcomma,
      Option.bind_eq_bind, Option.bind_some,
      ih hrest (first :: read) (hrest second List.mem_cons_self), List.reverse_cons,
      List.append_assoc, List.singleton_append]

theorem foldlM_memberTokens {first : Text × Value} {rest : List (Text × Value)}
    (hmembers : ∀ member ∈ first :: rest, member.2.Assembles) (frames : List Frame)
    (read : List (Text × Value)) :
    (memberTokens (first :: rest) ++ [Token.closeObject]).foldlM Assembly.next?
        ⟨.object read :: frames, .memberName⟩ =
      some ⟨frames, .afterValue (.object (read.reverse ++ first :: rest))⟩ := by
  have hfirst := hmembers first List.mem_cons_self
  obtain ⟨name, value⟩ := first
  induction rest generalizing name value read with
  | nil =>
    rw [memberTokens, List.cons_append, List.cons_append, hfirst.member, ← List.reverse_cons]
    rfl
  | cons second rest ih =>
    have hrest := fun member hmember => hmembers member (List.mem_cons_of_mem (name, value) hmember)
    have hcomma : Assembly.next? ⟨.member read name :: frames, .afterValue value⟩ .comma =
        some ⟨.object ((name, value) :: read) :: frames, .memberName⟩ := rfl
    rw [memberTokens, List.cons_append, List.cons_append, List.append_assoc, hfirst.member,
      List.cons_append, List.foldlM_cons, hcomma, Option.bind_eq_bind, Option.bind_some,
      ih ((name, value) :: read) second.1 second.2 hrest (hrest second List.mem_cons_self),
      List.reverse_cons, List.append_assoc, List.singleton_append]

theorem assembles (value : Value) : value.Assembles := by
  induction value using Value.induction with
  | scalar leaf => intro frames; rw [tokens]; rfl
  | array items hitems =>
    intro frames
    have hopen : Assembly.next? ⟨frames, .value⟩ .openArray =
        some ⟨.array [] :: frames, .firstItem⟩ := rfl
    rw [tokens, List.foldlM_cons, hopen, Option.bind_eq_bind, Option.bind_some]
    cases items with
    | nil => rw [itemTokens]; rfl
    | cons first rest =>
      rw [foldlM_firstItem, foldlM_itemTokens hitems]
      rfl
  | object members hmembers =>
    intro frames
    have hopen : Assembly.next? ⟨frames, .value⟩ .openObject =
        some ⟨.object [] :: frames, .firstMember⟩ := rfl
    rw [tokens, List.foldlM_cons, hopen, Option.bind_eq_bind, Option.bind_some]
    cases members with
    | nil => rw [memberTokens]; rfl
    | cons first rest =>
      rw [foldlM_firstMember, foldlM_memberTokens hmembers]
      rfl

/-- A value is assembled from its tokens. -/
theorem ofTokens?_tokens (value : Value) : ofTokens? value.tokens = some value := by
  rw [ofTokens?, Assembly.start, assembles value []]
  rfl

end Value

/-! ## Words between punctuation -/

namespace Token

theorem Apart.cons {token : Token} (htoken : token.isWord = false) {rest : List Token}
    (hrest : Apart rest) : Apart (token :: rest) := by
  refine List.isChain_cons.mpr ⟨fun next _ hword => ?_, hrest⟩
  rw [htoken] at hword
  cases hword

theorem Apart.separated {first rest : List Token} (hfirst : Apart first) {token : Token}
    (htoken : token.isWord = false) (hrest : Apart rest) : Apart (first ++ token :: rest) := by
  refine List.isChain_append.mpr ⟨hfirst, hrest.cons htoken, fun last _ next hnext _ => ?_⟩
  rw [List.head?_cons, Option.mem_some_iff] at hnext
  exact hnext ▸ htoken

end Token

namespace Value

open Token

theorem apart_itemTokens {items : List Value} (hitems : ∀ item ∈ items, Apart item.tokens) :
    Apart (itemTokens items) := by
  induction items with
  | nil => rw [itemTokens]; exact .nil
  | cons first rest ih =>
    have hfirst := hitems first List.mem_cons_self
    have hrest := ih fun item hitem => hitems item (List.mem_cons_of_mem first hitem)
    cases rest with
    | nil => rw [itemTokens]; exact hfirst
    | cons second rest => rw [itemTokens]; exact hfirst.separated rfl hrest

theorem apart_memberTokens {members : List (Text × Value)}
    (hmembers : ∀ member ∈ members, Apart member.2.tokens) : Apart (memberTokens members) := by
  induction members with
  | nil => rw [memberTokens]; exact .nil
  | cons first rest ih =>
    have hfirst := hmembers first List.mem_cons_self
    have hrest := ih fun member hmember => hmembers member (List.mem_cons_of_mem first hmember)
    cases rest with
    | nil => rw [memberTokens]; exact .cons rfl (.cons rfl hfirst)
    | cons second rest =>
      rw [memberTokens]
      exact .cons rfl (.cons rfl (hfirst.separated rfl hrest))

theorem apart_tokens (value : Value) : Apart value.tokens := by
  induction value using Value.induction with
  | scalar leaf => rw [tokens]; exact .singleton _
  | array items hitems =>
    rw [tokens]
    exact .cons rfl ((apart_itemTokens hitems).separated rfl .nil)
  | object members hmembers =>
    rw [tokens]
    exact .cons rfl ((apart_memberTokens hmembers).separated rfl .nil)

/-! ## Texts -/

/-- A value whose tokens are all read back as written. -/
def Readable (value : Value) : Prop := ∀ token ∈ value.tokens, token.Readable

/-- A value is read back from its text. -/
theorem parse?_write {value : Value} (hreadable : value.Readable) :
    parse? value.write = some value := by
  rw [parse?, write, String.toList_ofList, Token.scan?_chars hreadable value.apart_tokens,
    Option.bind_some, ofTokens?_tokens]

theorem readable_scalar {leaf : Scalar} (hleaf : (Token.scalar leaf).Readable) :
    (Value.scalar leaf).Readable := by
  intro token htoken
  rw [tokens, List.mem_singleton] at htoken
  exact htoken ▸ hleaf

theorem readable_array {items : List Value} (hitems : ∀ item ∈ items, item.Readable) :
    (array items).Readable := by
  have hall : ∀ token ∈ itemTokens items, token.Readable := by
    induction items with
    | nil => intro token htoken; rw [itemTokens] at htoken; cases htoken
    | cons first rest ih =>
      have hfirst := hitems first List.mem_cons_self
      have hrest := ih fun item hitem => hitems item (List.mem_cons_of_mem first hitem)
      cases rest with
      | nil => rwa [itemTokens]
      | cons second rest =>
        rw [itemTokens]
        exact List.forall_mem_append.mpr ⟨hfirst, List.forall_mem_cons.mpr ⟨trivial, hrest⟩⟩
  intro token htoken
  rw [tokens] at htoken
  simp only [List.mem_cons, List.mem_append, List.not_mem_nil, or_false] at htoken
  rcases htoken with rfl | htoken | rfl
  · trivial
  · exact hall token htoken
  · trivial

theorem readable_record {members : List (String × Value)}
    (hmembers : ∀ member ∈ members, member.2.Readable) : (record members).Readable := by
  have hall : ∀ token ∈ memberTokens (members.map fun member => (some member.1, member.2)),
      token.Readable := by
    induction members with
    | nil => intro token htoken; rw [List.map_nil, memberTokens] at htoken; cases htoken
    | cons first rest ih =>
      have hfirst : ∀ token ∈ .scalar (.string (some first.1)) :: .colon :: first.2.tokens,
          token.Readable :=
        List.forall_mem_cons.mpr
          ⟨rfl, List.forall_mem_cons.mpr ⟨trivial, hmembers first List.mem_cons_self⟩⟩
      have hrest := ih fun member hmember => hmembers member (List.mem_cons_of_mem first hmember)
      cases rest with
      | nil => rwa [List.map_singleton, memberTokens]
      | cons second rest =>
        rw [List.map_cons, List.map_cons, memberTokens, ← List.cons_append, ← List.cons_append]
        exact List.forall_mem_append.mpr ⟨hfirst, List.forall_mem_cons.mpr ⟨trivial, hrest⟩⟩
  intro token htoken
  rw [record, tokens] at htoken
  simp only [List.mem_cons, List.mem_append, List.not_mem_nil, or_false] at htoken
  rcases htoken with rfl | htoken | rfl
  · trivial
  · exact hall token htoken
  · trivial

/-! ## Held values -/

theorem isHeldWithin_array (levels : Nat) (items : List Value) :
    isHeldWithin (levels + 1) (array items) = items.all (isHeldWithin levels) := by
  rw [isHeldWithin]
  induction items with
  | nil => rw [itemsHeldWithin]; rfl
  | cons first rest ih => rw [itemsHeldWithin, ih, List.all_cons]

theorem isHeldWithin_record (levels : Nat) (members : List (String × Value)) :
    isHeldWithin (levels + 1) (record members) =
      members.all fun member => isHeldWithin levels member.2 := by
  rw [record, isHeldWithin]
  induction members with
  | nil => rw [List.map_nil, membersHeldWithin]; rfl
  | cons first rest ih =>
    rw [List.map_cons, membersHeldWithin, ih, List.all_cons, Option.isSome_some, Bool.true_and]

end Value

/-! ## Records -/

namespace Record

theorem members?_record (members : List (String × Value)) :
    members? (members.map fun member => (some member.1, member.2)) = some members := by
  induction members with
  | nil => rfl
  | cons first rest ih =>
    rw [members?] at ih
    rw [members?, List.map_cons, List.mapM_cons, ih]
    rfl

theorem named_of_notMem {members : List (String × Value)} {field : String}
    (hfield : field ∉ members.map (·.1)) : named members field = [] := by
  rw [named, List.map_eq_nil_iff, List.filter_eq_nil_iff]
  intro member hmember heq
  exact hfield (of_decide_eq_true heq ▸ List.mem_map_of_mem hmember)

theorem named_eq {members : List (String × Value)} (hnodup : (members.map (·.1)).Nodup)
    (field : String) : named members field = (members.lookup field).toList := by
  induction members with
  | nil => rfl
  | cons first rest ih =>
    obtain ⟨name, value⟩ := first
    rw [List.map_cons, List.nodup_cons] at hnodup
    have hrest : named ((name, value) :: rest) field =
        if name = field then value :: named rest field else named rest field := by
      rw [named, List.filter_cons]
      by_cases hname : name = field <;> simp [hname, named]
    by_cases hname : name = field
    · subst hname
      rw [hrest, if_pos rfl, named_of_notMem hnodup.1, List.lookup_cons_self]
      rfl
    · have hbeq : (field == name) = false := beq_eq_false_iff_ne.mpr (Ne.symm hname)
      rw [hrest, if_neg hname, ih hnodup.2, List.lookup_cons, hbeq]

theorem lookup?_eq {members : List (String × Value)} (hnodup : (members.map (·.1)).Nodup)
    (field : String) : lookup? members field = some (members.lookup field) := by
  rw [lookup?, named_eq hnodup]
  cases members.lookup field <;> rfl

/-- What a record was written with is found again. -/
theorem of?_record {members : List (String × Value)} (hnodup : (members.map (·.1)).Nodup)
    (fields : List String) :
    of? fields (.record members) = some ⟨false, fields.map (members.lookup ·)⟩ := by
  have hfound : fields.mapM (lookup? members) = some (fields.map (members.lookup ·)) := by
    induction fields with
    | nil => rfl
    | cons field fields ih => rw [List.mapM_cons, lookup?_eq hnodup, ih]; rfl
  rw [Value.record, of?, members?_record]
  simp [hfound]

end Record

theorem Value.untag?_record (tag name : String) {members : List (String × Value)}
    (hmembers : tag ∉ members.map (·.1)) :
    untag? tag (.record ((tag, .string name) :: members)) = some (name, .record members) := by
  have hothers : ∀ member ∈ members.map fun member => (some member.1, member.2),
      member.1 ≠ some tag := by
    simp only [List.mem_map]
    rintro _ ⟨member, hmember, rfl⟩ heq
    exact hmembers (Option.some.inj heq ▸ List.mem_map_of_mem hmember)
  have htag : (((tag, .string name) :: members).map fun member => (some member.1, member.2)).filter
      (fun member => decide (member.1 = some tag)) = [(some tag, .string name)] := by
    rw [List.map_cons, List.filter_cons, if_pos (decide_eq_true rfl),
      List.filter_eq_nil_iff.mpr fun member hmember heq =>
        hothers member hmember (of_decide_eq_true heq)]
  have hrest : (((tag, .string name) :: members).map fun member => (some member.1, member.2)).filter
      (fun member => decide (member.1 ≠ some tag)) =
        members.map fun member => (some member.1, member.2) := by
    rw [List.map_cons, List.filter_cons, if_neg (by simp)]
    exact List.filter_eq_self.mpr fun member hmember => decide_eq_true (hothers member hmember)
  rw [record, untag?, htag, hrest]
  rfl

end SchemaMigration.Json
