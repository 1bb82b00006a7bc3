import RestQuery.Schema.Naming

/-!
# A schema to start from

The schema that a fresh installation is given.
-/

namespace RestQuery

def Schema.sample : Schema :=
  ⟨[{ version := "1", edges := [users, posts] }]⟩
where
  users : Edge :=
    { name := "users"
      fields := ["id", "name", "email", "age", "status", "createdAt"]
      relations :=
        [⟨"profile", "users.profile", .oneToOne⟩, ⟨"address", "users.address", .oneToOne⟩,
          ⟨"posts", "users.posts", .oneToMany⟩] }
  posts : Edge :=
    { name := "posts"
      fields := ["id", "title", "body", "authorId", "createdAt"]
      relations := [⟨"author", "posts.author", .oneToOne⟩, ⟨"tags", "posts.tags", .manyToMany⟩] }

theorem Schema.sample_offence? : sample.offence? = none := by decide

end RestQuery
