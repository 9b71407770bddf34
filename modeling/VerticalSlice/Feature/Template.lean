import VerticalSlice.Feature.Piece

/-!
# The files of a new feature

A feature starts with six files: its route table, the page that the table loads, the data access,
the store, the data model and a note on the conventions. They refer to one another by the spellings
of the feature's name, so each file is a text with holes for these.
-/

namespace VerticalSlice.Feature

/-- The route table: one route with its providers, which loads the page. -/
def routesFile : List Piece := [
  "import \x7b Routes \x7d from '@angular/router';\n",
  "import \x7b provideFeatureState \x7d from './", Hole.kebab, ".state';\n",
  "import \x7b provideFeatureData \x7d from './", Hole.kebab, ".data';\n",
  "\n",
  "export const ", Hole.const, "_ROUTES: Routes = [\n",
  "  \x7b\n",
  "    path: '',\n",
  "    providers: [provideFeatureData(), provideFeatureState()],\n",
  "    loadComponent: () => import('./", Hole.kebab, ".page').then((m) => m.", Hole.pascal,
  "Page),\n",
  "    title: '", Hole.pascal, "',\n",
  "  \x7d,\n",
  "];\n"]

/-- The page: a component that shows the status of the store. -/
def pageFile : List Piece := List.flatten [[
  "import \x7b Component, inject \x7d from '@angular/core';\n",
  "import \x7b CommonModule \x7d from '@angular/common';\n",
  "\n",
  "import \x7b ", Hole.pascal, "Store \x7d from './", Hole.kebab, ".state';\n",
  "\n",
  "@Component(\x7b\n"], [
  "  standalone: true,\n",
  "  imports: [CommonModule],\n",
  "  template: `\n",
  "    <section class=\"bg-background text-on-background\">\n",
  "      <h1 class=\"text-xl font-semibold text-on-surface\">", Hole.pascal, "</h1>\n",
  "\n",
  "      <div class=\"mt-4\">\n",
  "        <p class=\"text-sm text-on-surface-variant\">Status: \x7b\x7b store.status() \x7d\x7d</p>\n",
  "      </div>\n",
  "    </section>\n",
  "  `,\n",
  "\x7d)\n"], [
  "export class ", Hole.pascal, "Page \x7b\n",
  "  readonly store = inject(", Hole.pascal, "Store);\n",
  "\n",
  "  constructor() \x7b\n",
  "    void this.store.init();\n",
  "  \x7d\n",
  "\x7d\n"]]

/-- The data access: an injectable class with its provider. -/
def dataFile : List Piece := List.flatten [[
  "import \x7b Injectable, Provider \x7d from '@angular/core';\n",
  "import \x7b of, delay \x7d from 'rxjs';\n",
  "import type \x7b Observable \x7d from 'rxjs';\n",
  "\n",
  "import type \x7b ", Hole.pascal, "Summary \x7d from './", Hole.kebab, ".models';\n",
  "\n",
  "@Injectable()\n"], [
  "export class ", Hole.pascal, "Data \x7b\n",
  "  getSummary(): Observable<", Hole.pascal, "Summary> \x7b\n",
  "    // Example: return this.http.get<", Hole.pascal, "Summary>('/api/", Hole.kebab,
  "/summary');\n",
  "    return of(\x7b updatedAt: new Date().toISOString() \x7d).pipe(delay(300));\n",
  "  \x7d\n",
  "\x7d\n",
  "\n",
  "export function provideFeatureData(): Provider \x7b\n",
  "  return ", Hole.pascal, "Data;\n",
  "\x7d\n"]]

/-- The store: the status of the feature, kept by an injectable class with its provider. -/
def stateFile : List Piece := List.flatten [[
  "import \x7b inject, Injectable, Provider, signal \x7d from '@angular/core';\n",
  "import \x7b firstValueFrom \x7d from 'rxjs';\n",
  "\n",
  "import \x7b ", Hole.pascal, "Data \x7d from './", Hole.kebab, ".data';\n",
  "\n",
  "export type ", Hole.pascal, "Status = 'idle' | 'loading' | 'ready' | 'error';\n",
  "\n",
  "@Injectable()\n"], [
  "export class ", Hole.pascal, "Store \x7b\n",
  "  private readonly data = inject(", Hole.pascal, "Data);\n",
  "\n",
  "  readonly status = signal<", Hole.pascal, "Status>('idle');\n",
  "\n"], [
  "  async init() \x7b\n",
  "    if (this.status() !== 'idle') return;\n",
  "    this.status.set('loading');\n",
  "    try \x7b\n",
  "      await firstValueFrom(this.data.getSummary());\n",
  "      this.status.set('ready');\n",
  "    \x7d catch \x7b\n",
  "      this.status.set('error');\n",
  "    \x7d\n",
  "  \x7d\n",
  "\x7d\n",
  "\n",
  "export function provideFeatureState(): Provider \x7b\n",
  "  return ", Hole.pascal, "Store;\n",
  "\x7d\n"]]

/-- The data model. -/
def modelsFile : List Piece := [
  "export interface ", Hole.pascal, "Summary \x7b\n",
  "  updatedAt: string;\n",
  "\x7d\n"]

/-- The note on the conventions of a feature folder. -/
def readmeFile : List Piece := [
  "# ", Hole.pascal, " Feature\n",
  "\n",
  "Conventions:\n",
  "- Route definition: `", Hole.kebab, ".routes.ts`\n",
  "- Routed component: `", Hole.kebab, ".page.ts`\n",
  "- Data access: `", Hole.kebab, ".data.ts`\n",
  "- Feature state/store: `", Hole.kebab, ".state.ts`\n",
  "\n",
  "This folder is a vertical slice and must not be imported from other feature folders.\n"]

/-- The names and the contents of the files of a feature, with holes, in the order in which they are
written. -/
def templates : List (List Piece × List Piece) := [
  ([Hole.kebab, ".routes.ts"], routesFile),
  ([Hole.kebab, ".page.ts"], pageFile),
  ([Hole.kebab, ".data.ts"], dataFile),
  ([Hole.kebab, ".state.ts"], stateFile),
  ([Hole.kebab, ".models.ts"], modelsFile),
  (["README.md"], readmeFile)]

/-- The names and the contents of the files of a new feature, in the order in which they are
written. -/
def render (name : FeatureName) : List (Text × Text) :=
  templates.map fun (file, contents) =>
    (fill (holeValues name []) file, fill (holeValues name []) contents)

end VerticalSlice.Feature
