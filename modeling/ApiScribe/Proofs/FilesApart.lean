import ApiScribe.Proofs.FileNames
import ApiScribe.Proofs.NumberedNames
import Mathlib.Data.List.Pairwise

/-!
# Files on file systems that ignore case

Where case does not count, two files are kept apart only if their names are not `Alike`.  Class
names are told apart as they are written: the name that a tag asks for gets the number of times that
it was asked for before (`map_className_eq`), and the suffix of a class name is no number.  So
numbers never make two names alike, and the first client that asks for a name has exactly this name.
What remains is what tags ask for: `generate_apart` says that all files are kept apart if and only
if tags never ask for different names that are alike.

Tags that differ in nothing but case and punctuation do ask for names that are alike
(`alike_requestedName`), but not always for the same name, because the capitals inside a word are
kept unless all its letters are capitals (`exists_alike_files`).
-/

namespace ApiScribe

open Text TypeScript

namespace Text

/-! ## ASCII text in small letters -/

/-- What letter case does to ASCII. -/
theorem asciiLower_of_lt {c : Char} (h : c.toNat < 128) :
    asciiLower (asciiUpper c) = asciiLower c ∧ asciiLower (asciiLower c) = asciiLower c := by
  have hall : ∀ n < 128, asciiLower (asciiUpper (Char.ofNat n)) = asciiLower (Char.ofNat n) ∧
      asciiLower (asciiLower (Char.ofNat n)) = asciiLower (Char.ofNat n) := by
    decide +kernel
  simpa using hall c.toNat h

theorem lowerText_of_lt {cs : List Char} (h : ∀ c ∈ cs, c.toNat < 128) :
    lowerText cs = asciiLowerText cs := by
  rw [lowerText]
  generalize ([] : List Char) = before
  induction cs generalizing before with
  | nil => rfl
  | cons c cs ih =>
    obtain ⟨hc, hcs⟩ := List.forall_mem_cons.mp h
    rw [lowerAfter, if_neg (by omega), lower, if_pos hc, ih hcs]
    rfl

end Text

namespace Naming

/-- The name has no characters outside ASCII. -/
def IsAscii (name : String) : Prop :=
  ∀ c ∈ name.toList, c.toNat < 128

/-- The names differ in nothing but case and punctuation: what stands between words, and the case of
ASCII letters. -/
def HaveSameLetters (first second : String) : Prop :=
  asciiLowerText (first.toList.filter isAlphanumeric) =
    asciiLowerText (second.toList.filter isAlphanumeric)

instance (first second : String) : Decidable (HaveSameLetters first second) :=
  inferInstanceAs (Decidable (_ = _))

theorem asciiLowerText_pascalWord {word : List Char} (h : ∀ c ∈ word, c.toNat < 128) :
    asciiLowerText (pascalWord word) = asciiLowerText word := by
  cases word with
  | nil => rfl
  | cons c cs =>
    obtain ⟨hc, hcs⟩ := List.forall_mem_cons.mp h
    have hrest : asciiLowerText (asciiLowerText cs) = asciiLowerText cs := by
      rw [asciiLowerText, asciiLowerText, List.map_map]
      exact List.map_congr_left fun d hd => (asciiLower_of_lt (hcs d hd)).2
    rw [pascalWord, upper, if_pos hc, asciiLowerText_append]
    refine congrArg₂ List.cons (asciiLower_of_lt hc).1 ?_
    split
    · rw [lowerText_of_lt hcs]
      exact hrest
    · rfl

/-- A name in Pascal case has the letters and digits of the name, but for their case. -/
theorem asciiLowerText_pascalChars {name : String} (h : IsAscii name) :
    asciiLowerText (pascalChars name.toList) =
      asciiLowerText (name.toList.filter isAlphanumeric) := by
  have hwords : ∀ word ∈ words isGap name.toList, ∀ c ∈ word, c.toNat < 128 := by
    intro word hword c hc
    have hmem := List.mem_flatten_of_mem hword hc
    rw [flatten_words] at hmem
    exact h c (List.mem_filter.mp hmem).1
  have hfilter : name.toList.filter isAlphanumeric = (words isGap name.toList).flatten := by
    rw [flatten_words]
    simp [isGap]
  rw [hfilter, pascalChars]
  generalize words isGap name.toList = words at hwords
  induction words with
  | nil => rfl
  | cons word words ih =>
    obtain ⟨hword, hwords⟩ := List.forall_mem_cons.mp hwords
    rw [List.flatMap_cons, List.flatten_cons, asciiLowerText_append, asciiLowerText_append,
      asciiLowerText_pascalWord hword, ih hwords]

end Naming

namespace Client

open Naming

/-- A class name that a tag asks for does not end in a digit, because its suffix does not. -/
theorem endsOpen_requestedName (settings : Settings) (tag : String) :
    EndsOpen (requestedName settings tag).toList := by
  have hsuffix : ∃ front last, settings.clientSuffix.text.toList = front ++ [last] ∧
      last.isDigit = false := by
    cases settings.clientSuffix
    · exact ⟨"Clien".toList, 't', rfl, rfl⟩
    · exact ⟨"Ap".toList, 'i', rfl, rfl⟩
  obtain ⟨front, last, heq, hlast⟩ := hsuffix
  rw [requestedName, String.toList_append, heq, ← List.append_assoc]
  intro c hc
  rw [List.getLast?_concat, Option.mem_some_iff] at hc
  rwa [← hc]

/-- **Tags that differ in nothing but case and punctuation** ask for class names that are alike. -/
theorem alike_requestedName (settings : Settings) {first second : String} (hfirst : IsAscii first)
    (hsecond : IsAscii second) (h : HaveSameLetters first second) :
    Alike (requestedName settings first) (requestedName settings second) := by
  have hchars : asciiLowerText (pascalChars first.toList) =
      asciiLowerText (pascalChars second.toList) := by
    rw [asciiLowerText_pascalChars hfirst, asciiLowerText_pascalChars hsecond, h]
  rw [requestedName, requestedName]
  refine (alike_append_iff _).mpr ?_
  generalize pascalChars first.toList = front at hchars
  generalize pascalChars second.toList = back at hchars
  cases front with
  | nil =>
    obtain rfl := List.map_eq_nil_iff.mp hchars.symm
    rfl
  | cons c cs =>
    cases back with
    | nil => cases hchars
    | cons d ds =>
      -- both names begin with a digit, or none does
      have hdigit : startsWithDigit (c :: cs) = startsWithDigit (d :: ds) := by
        show c.isDigit = d.isDigit
        rw [← isDigit_asciiLower c, (List.cons.inj hchars).1, isDigit_asciiLower]
      dsimp only
      rw [hdigit]
      split
      · simp only [Alike, String.toList_append, String.toList_ofList, asciiLowerText_append, hchars]
      · rw [Alike, String.toList_ofList, String.toList_ofList, hchars]

/-- No class name is like the name of the file of declarations. -/
theorem not_alike_types (settings : Settings) (tag : String) (number : Nat) :
    ¬ Alike (candidate (requestedName settings tag) number) "types" := by
  intro h
  have htypes : EndsOpen "types".toList := by
    intro c hc
    obtain rfl : 's' = c := Option.some_inj.mp hc
    rfl
  have htypesName : "types" = candidate "types" 0 := rfl
  rw [htypesName, alike_candidate_iff (endsOpen_requestedName settings tag) htypes] at h
  obtain ⟨halike, -⟩ := h
  have hlast := congrArg List.getLast? halike
  rw [requestedName, String.toList_append, asciiLowerText_append, List.getLast?_append] at hlast
  cases hsuffix : settings.clientSuffix <;> rw [hsuffix] at hlast <;> cases hlast

/-- The class gets the first free name for what its tag asks for. -/
theorem className_eq_fresh {scope : Scope} {before after : Progress} {client : Client}
    {tag : String} {operations : List Operation}
    (h : ofOperations tag operations scope before = (.ok client, after)) :
    client.className = fresh before.clientNames (requestedName scope.settings client.tag) := by
  simp only [ofOperations, Session.bind_eq_ok, Session.pure_eq_ok, Session.setSubject_eq_ok,
    Session.settings_eq_ok, Session.claimClientName_eq_ok] at h
  obtain ⟨_, _, rfl, _, _, ⟨rfl, rfl⟩, className, claimed, hclaimed, functions, _, hfunctions, rfl,
    rfl⟩ := h
  exact (Prod.mk.inj hclaimed).1.symm

end Client

namespace Output

open Naming

/-- Hoisting has nothing to do with class names. -/
theorem clientNames_hoist (progress : Progress) (shapeNames : List String) (requested : String)
    (values : List EnumValue) :
    (progress.hoist shapeNames requested values).2.clientNames = progress.clientNames := by
  rcases Progress.hoist_cases (Prod.eta (progress.hoist shapeNames requested values)).symm with
    ⟨_, _, _, _, h⟩ | ⟨_, _, h⟩
  · rw [h]
  · rw [h, Progress.withInlineEnum]
    dsimp only
    split <;> rfl

/-- **Every class name is numbered** by how often it was asked for before. -/
theorem map_className_eq {scope : Scope} {before after : Progress}
    {groups : Table (List Operation)} {clients : List Client} {earlier : List String}
    (hearlier : ∀ name ∈ earlier, EndsOpen name.toList)
    (hbefore : before.clientNames = numbered earlier)
    (h : clientsOf groups scope before = (.ok clients, after)) :
    clients.map Client.className = numberedAfter earlier
      (clients.map fun client => Client.requestedName scope.settings client.tag) := by
  induction groups generalizing clients before earlier with
  | nil =>
    obtain ⟨rfl, -⟩ := Session.pure_eq_ok.mp h
    rfl
  | cons group groups ih =>
    simp only [clientsOf, Session.bind_eq_ok, Session.pure_eq_ok] at h
    obtain ⟨client, between, hclient, others, _, hothers, rfl, rfl⟩ := h
    have hopen := Client.endsOpen_requestedName scope.settings client.tag
    have hname : client.className = candidate (Client.requestedName scope.settings client.tag)
        (earlier.count (Client.requestedName scope.settings client.tag)) := by
      rw [Client.className_eq_fresh hclient, hbefore, fresh_numbered hearlier hopen]
    have hbetween : between.clientNames =
        numbered (earlier ++ [Client.requestedName scope.settings client.tag]) := by
      rw [(Client.claimed_of_ofOperations hclient).2, hbefore, hname, numbered_concat]
    have hall : ∀ name ∈ earlier ++ [Client.requestedName scope.settings client.tag],
        EndsOpen name.toList :=
      List.forall_mem_append.mpr ⟨hearlier, List.forall_mem_singleton.mpr hopen⟩
    rw [List.map_cons, List.map_cons, numberedAfter, hname, ih hall hbetween hothers]

variable {document : Document} {settings : Settings} {output : Output}

theorem Run.map_className_eq (run : Run document settings output) :
    output.clients.map Client.className =
      numbered (output.clients.map fun client => Client.requestedName settings client.tag) := by
  have hkeeps : Session.Keeps (fun before after => after.clientNames = before.clientNames)
      run.scope (declarationsOf document.namedShapes) :=
    declarationsOf_keeps Progress.stable_clientNames fun named _ => Shape.HoistKeeps.of_forall
      fun progress requested values => clientNames_hoist progress _ requested values
  have hbefore : run.declared.clientNames = numbered [] := hkeeps.of_eq_ok run.declarations_eq
  rw [← run.settings_eq]
  exact Output.map_className_eq nofun hbefore run.clients_eq

/-- The first client whose tag asks for a name has it. -/
theorem Run.exists_className_eq (run : Run document settings output) {client : Client}
    (h : client ∈ output.clients) :
    ∃ owner ∈ output.clients, owner.className = Client.requestedName settings client.tag := by
  let requested : Client → String := fun client => Client.requestedName settings client.tag
  have hopen : ∀ name ∈ output.clients.map requested, EndsOpen name.toList := by
    intro name hname
    obtain ⟨other, -, rfl⟩ := List.mem_map.mp hname
    exact Client.endsOpen_requestedName settings other.tag
  have hmem : requested client ∈ output.clients.map requested := List.mem_map_of_mem h
  have hname := mem_numbered hopen hmem
  rw [← run.map_className_eq] at hname
  exact List.mem_map.mp hname

/-- Files are kept apart where case does not count if tags do not ask for different names that are
alike. -/
theorem Run.apart_iff (run : Run document settings output) :
    output.files.names.Pairwise Apart ↔
      ∀ first ∈ output.clients, ∀ second ∈ output.clients,
        Alike (Client.requestedName settings first.tag) (Client.requestedName settings second.tag) →
          Client.requestedName settings first.tag = Client.requestedName settings second.tag := by
  have hcandidate : ∀ client ∈ output.clients, ∃ number,
      client.className = candidate (Client.requestedName settings client.tag) number := by
    intro client hclient
    obtain ⟨functions, hrun⟩ := run.isRun_client client hclient
    rw [← run.settings_eq]
    exact hrun.className
  constructor
  · -- names that are alike and different were both handed out as they are
    intro hapart first hfirst second hsecond halike
    have hfile : ∀ client ∈ output.clients,
        Client.requestedName settings client.tag ++ ".ts" ∈ output.files.names := by
      intro client hclient
      obtain ⟨owner, howner, hname⟩ := run.exists_className_eq hclient
      rw [run.names_files, ← hname]
      exact List.mem_cons_of_mem _ (List.mem_map_of_mem howner)
    by_contra hne
    refine hapart.forall (hfile first hfirst) (hfile second hsecond) (fun heq => hne ?_)
      ((alike_append_iff ".ts").mpr halike)
    exact (String.append_left_inj ".ts").mp heq
  · intro hsame
    rw [run.names_files, List.pairwise_cons, List.pairwise_map]
    constructor
    · rintro _ hname halike
      obtain ⟨client, hclient, rfl⟩ := List.mem_map.mp hname
      obtain ⟨number, hnumber⟩ := hcandidate client hclient
      have htypes : Alike client.className "types" := (alike_append_iff ".ts").mp halike.symm
      rw [hnumber] at htypes
      exact Client.not_alike_types settings client.tag number htypes
    · have hnodup := List.pairwise_map.mp (nodup_classNames run.clients_eq).1
      refine hnodup.imp_of_mem fun {first second} hfirst hsecond hne halike => hne ?_
      have hnames : Alike first.className second.className := (alike_append_iff ".ts").mp halike
      obtain ⟨i, hi⟩ := hcandidate first hfirst
      obtain ⟨j, hj⟩ := hcandidate second hsecond
      rw [hi, hj, alike_candidate_iff (Client.endsOpen_requestedName settings first.tag)
        (Client.endsOpen_requestedName settings second.tag)] at hnames
      rw [hi, hj, hsame first hfirst second hsecond hnames.1, hnames.2]

/-- **When files are kept apart where case does not count.**  Class names are numbered by how often
they were asked for before.  No two files have names that are alike if and only if no two tags ask
for different class names that are alike; and tags in ASCII that differ in nothing but case and
punctuation do ask for names that are alike. -/
theorem generate_apart (h : generate document settings = .ok output) :
    output.clients.map Client.className =
        numbered (output.clients.map fun client => Client.requestedName settings client.tag) ∧
      (output.files.names.Pairwise Apart ↔
        ∀ first ∈ output.clients, ∀ second ∈ output.clients,
          Alike (Client.requestedName settings first.tag)
              (Client.requestedName settings second.tag) →
            Client.requestedName settings first.tag = Client.requestedName settings second.tag) ∧
      ∀ first ∈ output.clients, ∀ second ∈ output.clients, IsAscii first.tag → IsAscii second.tag →
        HaveSameLetters first.tag second.tag →
          Alike (Client.requestedName settings first.tag)
            (Client.requestedName settings second.tag) := by
  obtain ⟨run⟩ := exists_run h
  exact ⟨run.map_className_eq, run.apart_iff,
    fun first _ second _ hfirst hsecond => Client.alike_requestedName settings hfirst hsecond⟩

/-- A document with one operation under two tags. -/
def underTags (first second : String) : String :=
  String.intercalate "\n"
    ["openapi: 3.0.0",
      "paths:",
      " /users:",
      "  get:",
      "   tags: [" ++ first ++ ", " ++ second ++ "]",
      "   responses: \x7b\x7d"]

theorem generate_apart_userList :
    ∃ document output, Document.readAs .yaml (underTags "user-list" "user list") = .ok document ∧
      generate document {} = .ok output ∧
      output.clients.map Client.className = ["UserListClient", "UserListClient2"] ∧
      output.files.names.Pairwise Apart := by
  have hyields : yields .yaml (underTags "user-list" "user list") {} (fun _ output =>
      output.clients.map Client.tag = ["user-list", "user list"]) = true := by
    decide +kernel
  obtain ⟨document, output, hread, h, htags⟩ := exists_of_yields hyields
  have htags := of_decide_eq_true htags
  obtain ⟨hclassNames, hapart, -⟩ := generate_apart h
  have hrequested : output.clients.map (fun client => Client.requestedName {} client.tag) =
      ["UserListClient", "UserListClient"] := by
    show output.clients.map (Client.requestedName {} ∘ Client.tag) = _
    rw [← List.map_map, htags]
    decide +kernel
  refine ⟨document, output, hread, h, ?_, hapart.mpr fun first hfirst second hsecond _ => ?_⟩
  · rw [hclassNames, hrequested]
    decide +kernel
  · have hall : ∀ name ∈ output.clients.map (fun client => Client.requestedName {} client.tag),
        name = "UserListClient" := by
      rw [hrequested]
      simp
    rw [hall _ (List.mem_map_of_mem hfirst), hall _ (List.mem_map_of_mem hsecond)]

/-- **Tags that differ in nothing but case** are not always recognized as asking for one name: the
capital inside the first tag is kept, and the two files are one where case does not count. -/
theorem exists_alike_files :
    ∃ document output, Document.readAs .yaml (underTags "fooBar" "foobar") = .ok document ∧
      generate document {} = .ok output ∧
      HaveSameLetters "fooBar" "foobar" ∧
      output.files.names = ["types.ts", "FooBarClient.ts", "FoobarClient.ts"] ∧
      ¬ output.files.names.Pairwise Apart := by
  have hyields : yields .yaml (underTags "fooBar" "foobar") {} (fun _ output =>
      output.clients.map Client.fileName = ["FooBarClient.ts", "FoobarClient.ts"]) = true := by
    decide +kernel
  obtain ⟨document, output, hread, h, hclients⟩ := exists_of_yields hyields
  obtain ⟨run⟩ := exists_run h
  have hnames : output.files.names = ["types.ts", "FooBarClient.ts", "FoobarClient.ts"] := by
    rw [run.names_files]
    exact congrArg (List.cons typesFile) (of_decide_eq_true hclients)
  refine ⟨document, output, hread, h, by decide +kernel, hnames, fun hapart => ?_⟩
  rw [hnames] at hapart
  have halike : Alike "FooBarClient.ts" "FoobarClient.ts" := by decide
  have hpair : Apart "FooBarClient.ts" "FoobarClient.ts" := by simpa using hapart.tail
  exact hpair halike

end Output

end ApiScribe
