/-! The page that shows the diagrams in a browser. It fetches the tree, the links and the details
from the other routes. -/

namespace SourceAtlas.Server

def pageLines : List String :=
  ["<!DOCTYPE html>",
   "<html lang=\"en\">",
   "<head>",
   "    <meta charset=\"UTF-8\">",
   "    <meta name=\"viewport\" content=\"width=device-width, initial-scale=1.0\">",
   "    <title>Codemap - Codebase Structure</title>",
   "    <script src=\"https://d3js.org/d3.v7.min.js\"></script>",
   "    <style>",
   "        * \x7b",
   "            margin: 0;",
   "            padding: 0;",
   "            box-sizing: border-box;",
   "        \x7d",
   "",
   "        body \x7b",
   "            font-family: -apple-system, BlinkMacSystemFont, 'Segoe UI', Roboto, Oxygen, " ++
     "Ubuntu, sans-serif;",
   "            background: #fafafa;",
   "            color: #222;",
   "        \x7d",
   "",
   "        #container \x7b",
   "            display: flex;",
   "            height: 100vh;",
   "        \x7d",
   "",
   "        #main \x7b",
   "            flex: 1;",
   "            display: flex;",
   "            flex-direction: column;",
   "            overflow: hidden;",
   "        \x7d",
   "",
   "        #toolbar \x7b",
   "            display: flex;",
   "            align-items: center;",
   "            gap: 8px;",
   "            padding: 10px 16px;",
   "            border-bottom: 1px solid #ddd;",
   "            background: #fff;",
   "        \x7d",
   "",
   "        #toolbar button \x7b",
   "            padding: 6px 14px;",
   "            border: 1px solid #ccc;",
   "            border-radius: 4px;",
   "            background: #f4f4f4;",
   "            cursor: pointer;",
   "        \x7d",
   "",
   "        #toolbar button.active \x7b",
   "            background: #2196F3;",
   "            border-color: #2196F3;",
   "            color: #fff;",
   "        \x7d",
   "",
   "        #view-select \x7b",
   "            display: none;",
   "            padding: 5px;",
   "        \x7d",
   "",
   "        #toolbar label \x7b",
   "            margin-left: auto;",
   "            font-size: 0.9em;",
   "        \x7d",
   "",
   "        #chart \x7b",
   "            flex: 1;",
   "            overflow: auto;",
   "        \x7d",
   "",
   "        #sidebar \x7b",
   "            width: 360px;",
   "            background: #fff;",
   "            border-left: 1px solid #ddd;",
   "            padding: 20px;",
   "            overflow-y: auto;",
   "        \x7d",
   "",
   "        h1 \x7b",
   "            font-size: 1.4em;",
   "            margin-bottom: 10px;",
   "        \x7d",
   "",
   "        h2 \x7b",
   "            font-size: 1.1em;",
   "            margin: 15px 0 10px;",
   "            color: #666;",
   "        \x7d",
   "",
   "        .legend \x7b",
   "            display: flex;",
   "            flex-wrap: wrap;",
   "            gap: 10px;",
   "        \x7d",
   "",
   "        .legend-item \x7b",
   "            display: flex;",
   "            align-items: center;",
   "            gap: 5px;",
   "            font-size: 0.85em;",
   "        \x7d",
   "",
   "        .legend-color \x7b",
   "            width: 12px;",
   "            height: 12px;",
   "            border-radius: 50%;",
   "        \x7d",
   "",
   "        .fact \x7b",
   "            display: flex;",
   "            justify-content: space-between;",
   "            padding: 5px 0;",
   "            border-bottom: 1px solid #eee;",
   "            font-size: 0.9em;",
   "        \x7d",
   "",
   "        .collapsible-section \x7b",
   "            margin-top: 10px;",
   "        \x7d",
   "",
   "        .collapsible-header \x7b",
   "            cursor: pointer;",
   "            font-weight: bold;",
   "            user-select: none;",
   "        \x7d",
   "",
   "        .collapsible-content \x7b",
   "            padding: 6px 0 0 14px;",
   "            font-size: 0.9em;",
   "        \x7d",
   "",
   "        .collapsible-content pre \x7b",
   "            background: #f4f4f4;",
   "            padding: 8px;",
   "            overflow-x: auto;",
   "            font-size: 0.85em;",
   "        \x7d",
   "",
   "        .message \x7b",
   "            color: #888;",
   "            font-style: italic;",
   "            margin-top: 10px;",
   "        \x7d",
   "",
   "        .node \x7b",
   "            cursor: pointer;",
   "        \x7d",
   "",
   "        .node circle \x7b",
   "            stroke: #555;",
   "            stroke-width: 1.5px;",
   "        \x7d",
   "",
   "        .node text \x7b",
   "            font-size: 10px;",
   "        \x7d",
   "",
   "        .link \x7b",
   "            fill: none;",
   "            stroke: #ccc;",
   "            stroke-width: 1.5px;",
   "        \x7d",
   "    </style>",
   "</head>",
   "<body>",
   "    <div id=\"container\">",
   "        <div id=\"main\">",
   "            <div id=\"toolbar\">",
   "                <button data-renderer=\"tree\" class=\"active\">Tree</button>",
   "                <button data-renderer=\"treemap\">Treemap</button>",
   "                <button data-renderer=\"arc\">Arc Diagram</button>",
   "                <select id=\"view-select\">",
   "                    <option value=\"hierarchy\">Hierarchy</option>",
   "                    <option value=\"dependency\">Dependencies</option>",
   "                    <option value=\"input\">Inputs</option>",
   "                    <option value=\"output\">Outputs</option>",
   "                </select>",
   "                <label>",
   "                    <input type=\"checkbox\" id=\"include-source\">",
   "                    Include source",
   "                </label>",
   "            </div>",
   "            <div id=\"chart\"></div>",
   "        </div>",
   "        <div id=\"sidebar\">",
   "            <h1>Codemap</h1>",
   "            <h2>Legend</h2>",
   "            <div class=\"legend\" id=\"legend\"></div>",
   "            <h2>Details</h2>",
   "            <div id=\"details\">",
   "                <div class=\"message\">No details available for this node.</div>",
   "            </div>",
   "        </div>",
   "    </div>",
   "",
   "    <script>",
   "        const categoryColors = \x7b",
   "            'directory': '#8BC34A',",
   "            'c': '#2196F3',",
   "            'h': '#FF9800',",
   "            'makefile': '#9C27B0',",
   "            'other': '#9E9E9E'",
   "        \x7d;",
   "",
   "        const width = 960;",
   "        const height = 600;",
   "        const margin = \x7b top: 20, right: 20, bottom: 20, left: 40 \x7d;",
   "        const duration = 750;",
   "",
   "        let data = null;",
   "        let renderer = 'tree';",
   "",
   "        function category(id) \x7b",
   "            const dot = id.lastIndexOf('.');",
   "            if (dot < 0) return 'directory';",
   "            const ext = id.slice(dot + 1).toLowerCase();",
   "            return ext === 'c' || ext === 'h' ? ext : 'other';",
   "        \x7d",
   "",
   "        function nodeColor(d) \x7b",
   "            const node = d.data || d;",
   "            if (node.type === 'directory') return categoryColors.directory;",
   "            if (node.type === 'file') \x7b",
   "                const name = node.name.toLowerCase();",
   "                if (name === 'makefile') return categoryColors.makefile;",
   "                if (!name.includes('.')) return categoryColors.other;",
   "            \x7d",
   "            return categoryColors[category(node.name || node.id)];",
   "        \x7d",
   "",
   "        function includeSource() \x7b",
   "            return document.getElementById('include-source').checked;",
   "        \x7d",
   "",
   "        async function init() \x7b",
   "            const legend = d3.select('#legend');",
   "            for (const [name, color] of Object.entries(categoryColors)) \x7b",
   "                const item = legend.append('div').attr('class', 'legend-item');",
   "                item.append('div').attr('class', 'legend-color').style('background', color);",
   "                item.append('span').text(name);",
   "            \x7d",
   "",
   "            document.querySelectorAll('#toolbar button').forEach(button => \x7b",
   "                button.addEventListener('click', () => \x7b",
   "                    renderer = button.dataset.renderer;",
   "                    document.querySelectorAll('#toolbar button')",
   "                        .forEach(b => b.classList.toggle('active', b === button));",
   "                    draw();",
   "                \x7d);",
   "            \x7d);",
   "            document.getElementById('view-select').addEventListener('change', draw);",
   "            document.getElementById('include-source').addEventListener('change', reload);",
   "",
   "            await reload();",
   "        \x7d",
   "",
   "        async function reload() \x7b",
   "            try \x7b",
   "                const response = await " ++
     "fetch(`/api/codebase?includeSource=$\x7bincludeSource()\x7d`);",
   "                data = await response.json();",
   "                numberNodes(data);",
   "            \x7d catch (e) \x7b",
   "                console.error('Error loading codebase structure:', e);",
   "                return;",
   "            \x7d",
   "            draw();",
   "        \x7d",
   "",
   "        function draw() \x7b",
   "            d3.select('#chart').selectAll('*').remove();",
   "            document.getElementById('view-select').style.display =",
   "                renderer === 'arc' ? 'inline-block' : 'none';",
   "            if (!data) return;",
   "            if (renderer === 'tree') drawTree();",
   "            else if (renderer === 'treemap') drawTreemap();",
   "            else drawArc();",
   "        \x7d",
   "",
   "        // Pre-order position, matching the server's node ids.",
   "        function numberNodes(root) \x7b",
   "            let next = 0;",
   "            (function visit(node) \x7b",
   "                node._preorder = next++;",
   "                (node.children || []).forEach(visit);",
   "            \x7d)(root);",
   "        \x7d",
   "",
   "        function showNode(d) \x7b",
   "            showDetails(`id=$\x7bd.data._preorder\x7d`);",
   "        \x7d",
   "",
   "        function showReference(id) \x7b",
   "            showDetails(`name=$\x7bencodeURIComponent(id)\x7d`);",
   "        \x7d",
   "",
   "        async function showDetails(selector) \x7b",
   "            const details = d3.select('#details');",
   "            details.selectAll('*').remove();",
   "            const response = await fetch(",
   "                `/api/details?$\x7bselector\x7d&includeSource=$\x7bincludeSource()\x7d`);",
   "            const panel = await response.json();",
   "",
   "            if (panel.title) details.append('h3').text(panel.title);",
   "            for (const fact of panel.facts) \x7b",
   "                const row = details.append('div').attr('class', 'fact');",
   "                row.append('span').text(fact.label);",
   "                row.append('span').text(fact.value);",
   "            \x7d",
   "            for (const section of panel.sections) \x7b",
   "                const wrap = details.append('div').attr('class', 'collapsible-section');",
   "                const header = wrap.append('div').attr('class', 'collapsible-header');",
   "                const content = wrap.append('div')",
   "                    .attr('class', 'collapsible-content')",
   "                    .style('display', section.expanded ? 'block' : 'none');",
   "                const label = () =>",
   "                    `$\x7bcontent.style('display') === 'none' ? '▶' : '▼'\x7d " ++
     "$\x7bsection.title\x7d`;",
   "                header.text(label());",
   "                header.on('click', () => \x7b",
   "                    const hidden = content.style('display') === 'none';",
   "                    content.style('display', hidden ? 'block' : 'none');",
   "                    header.text(label());",
   "                \x7d);",
   "",
   "                const body = section.body;",
   "                if (body.kind === 'list') \x7b",
   "                    const list = content.append('ul');",
   "                    body.value.forEach(item => list.append('li').text(item));",
   "                \x7d else if (body.kind === 'code') \x7b",
   "                    content.append('pre').append('code').text(body.value);",
   "                \x7d else \x7b",
   "                    content.append('p').text(body.value);",
   "                \x7d",
   "            \x7d",
   "            if (panel.message) \x7b",
   "                details.append('div').attr('class', 'message').text(panel.message);",
   "            \x7d",
   "        \x7d",
   "",
   "        function drawTree() \x7b",
   "            const innerWidth = width - margin.left - margin.right;",
   "            const innerHeight = height * 2 - margin.top - margin.bottom;",
   "",
   "            const svg = d3.select('#chart').append('svg')",
   "                .attr('width', innerWidth * 1.25 + margin.left + margin.right + 200)",
   "                .attr('height', innerHeight * 1.5 + margin.top + margin.bottom);",
   "            const g = svg.append('g')",
   "                .attr('transform', `translate($\x7bmargin.left\x7d,$\x7bmargin.top\x7d)`);",
   "",
   "            const root = d3.hierarchy(data, d => d.children);",
   "            const levels = root.height;",
   "            root.x0 = innerHeight * 1.5 / 2;",
   "            root.y0 = 0;",
   "            root.descendants().forEach((d, i) => \x7b",
   "                d.id = i;",
   "                d._children = d.children;",
   "                if (d.depth > 0) d.children = null;",
   "            \x7d);",
   "",
   "            const tree = d3.tree().size([innerHeight * 1.5, innerWidth * 1.25]);",
   "            update(root);",
   "",
   "            function update(source) \x7b",
   "                tree(root);",
   "                const nodes = root.descendants();",
   "                const links = root.links();",
   "                nodes.forEach(d => \x7b d.y = d.depth * innerWidth * 1.25 / (levels + " ++
     "1); \x7d);",
   "",
   "                const node = g.selectAll('g.node').data(nodes, d => d.id);",
   "                const nodeEnter = node.enter().append('g')",
   "                    .attr('class', 'node')",
   "                    .attr('transform', () => " ++
     "`translate($\x7bsource.y0\x7d,$\x7bsource.x0\x7d)`)",
   "                    .on('click', (event, d) => \x7b",
   "                        if (d.children) \x7b",
   "                            d.children = null;",
   "                        \x7d else if (d._children) \x7b",
   "                            d.children = d._children;",
   "                        \x7d",
   "                        update(d);",
   "                        showNode(d);",
   "                    \x7d);",
   "                nodeEnter.append('circle').attr('r', 7).attr('fill', nodeColor);",
   "                nodeEnter.append('text')",
   "                    .attr('dy', '0.31em')",
   "                    .attr('x', d => d._children ? -10 : 10)",
   "                    .attr('text-anchor', d => d._children ? 'end' : 'start')",
   "                    .text(d => d.data.name);",
   "",
   "                node.merge(nodeEnter).transition().duration(duration)",
   "                    .attr('transform', d => `translate($\x7bd.y\x7d,$\x7bd.x\x7d)`);",
   "                node.exit().transition().duration(duration)",
   "                    .attr('transform', () => `translate($\x7bsource.y\x7d,$\x7bsource.x\x7d)`)",
   "                    .remove();",
   "",
   "                const diagonal = d3.linkHorizontal().x(d => d.y).y(d => d.x);",
   "                const link = g.selectAll('path.link').data(links, d => d.target.id);",
   "                const linkEnter = link.enter().insert('path', 'g')",
   "                    .attr('class', 'link')",
   "                    .attr('d', () => \x7b",
   "                        const o = \x7b x: source.x0, y: source.y0 \x7d;",
   "                        return diagonal(\x7b source: o, target: o \x7d);",
   "                    \x7d);",
   "                link.merge(linkEnter).transition().duration(duration).attr('d', diagonal);",
   "                link.exit().transition().duration(duration)",
   "                    .attr('d', () => \x7b",
   "                        const o = \x7b x: source.x, y: source.y \x7d;",
   "                        return diagonal(\x7b source: o, target: o \x7d);",
   "                    \x7d)",
   "                    .remove();",
   "",
   "                nodes.forEach(d => \x7b d.x0 = d.x; d.y0 = d.y; \x7d);",
   "            \x7d",
   "        \x7d",
   "",
   "        function drawTreemap() \x7b",
   "            const innerWidth = width * 1.5 - margin.left - margin.right;",
   "            const innerHeight = height * 2 - margin.top - margin.bottom;",
   "",
   "            const root = d3.hierarchy(data)",
   "                .sum(d => d.type === 'file' ? (d.size || 0) : 0)",
   "                .sort((a, b) => b.value - a.value);",
   "            d3.treemap()",
   "                .size([innerWidth, innerHeight])",
   "                .paddingTop(50)",
   "                .paddingRight(7)",
   "                .paddingInner(3)",
   "                .round(true)(root);",
   "",
   "            const svg = d3.select('#chart').append('svg')",
   "                .attr('width', innerWidth + margin.left + margin.right)",
   "                .attr('height', innerHeight + margin.top + margin.bottom + 50);",
   "            const g = svg.append('g')",
   "                .attr('transform', `translate($\x7bmargin.left\x7d,$\x7bmargin.top + " ++
     "50\x7d)`);",
   "",
   "            const cell = g.selectAll('g').data(root.descendants()).join('g')",
   "                .attr('transform', d => `translate($\x7bd.x0\x7d,$\x7bd.y0\x7d)`)",
   "                .on('click', (event, d) => showNode(d));",
   "            cell.append('rect')",
   "                .attr('width', d => d.x1 - d.x0)",
   "                .attr('height', d => d.y1 - d.y0)",
   "                .attr('fill', nodeColor)",
   "                .attr('stroke', d => d.children ? '#000' : 'none')",
   "                .attr('stroke-width', d => d.children ? 2 : 0);",
   "            cell.append('text')",
   "                .attr('x', 4).attr('y', 14).attr('dy', '.35em')",
   "                .attr('font-size', '10px')",
   "                .text(d => d.data.name)",
   "                .each(function(d) \x7b",
   "                    const room = d.x1 - d.x0 - 8;",
   "                    let text = d.data.name;",
   "                    while (text.length > 0 && this.getComputedTextLength() > room) \x7b",
   "                        text = text.slice(0, -1);",
   "                        this.textContent = text + '...';",
   "                    \x7d",
   "                \x7d);",
   "            cell.append('text')",
   "                .attr('x', 4).attr('y', 26).attr('dy', '.35em')",
   "                .attr('font-size', '9px').attr('fill', '#555')",
   "                .text(d => d.value);",
   "            cell.append('title')",
   "                .text(d => `$\x7bd.data.name\x7d\\nSize: $\x7bd.value\x7d\\nType: " ++
     "$\x7bd.data.type\x7d`);",
   "        \x7d",
   "",
   "        async function drawArc() \x7b",
   "            const view = document.getElementById('view-select').value;",
   "            const response = await fetch(`/api/links?view=$\x7bview\x7d`);",
   "            const graph = await response.json();",
   "",
   "            const innerHeight = height * 3 - margin.top - margin.bottom;",
   "            const y = d3.scalePoint()",
   "                .domain(graph.nodes.map(d => d.id))",
   "                .range([0, innerHeight]);",
   "",
   "            d3.select('#chart').selectAll('*').remove();",
   "            const svg = d3.select('#chart').append('svg')",
   "                .attr('width', width)",
   "                .attr('height', innerHeight + margin.top + margin.bottom);",
   "            const g = svg.append('g')",
   "                .attr('transform', `translate($\x7bmargin.left\x7d,$\x7bmargin.top\x7d)`);",
   "",
   "            const arc = d => \x7b",
   "                const y1 = y(d.source);",
   "                const y2 = y(d.target);",
   "                const r = Math.abs(y2 - y1) / 2;",
   "                return `M$\x7bmargin.left\x7d,$\x7by1\x7dA$\x7br\x7d,$\x7br\x7d " ++
     "0,0,$\x7by1 < y2 ? 1 : 0\x7d $\x7bmargin.left\x7d,$\x7by2\x7d`;",
   "            \x7d;",
   "",
   "            const path = g.append('g')",
   "                .attr('fill', 'none')",
   "                .attr('stroke-width', 1.5)",
   "                .selectAll('path')",
   "                .data(graph.links.filter(d => y(d.source) !== undefined && y(d.target) " ++
     "!== undefined))",
   "                .join('path')",
   "                .attr('stroke', d => categoryColors[category(d.source)])",
   "                .attr('stroke-opacity', 0.6)",
   "                .attr('d', arc);",
   "",
   "            const node = g.append('g')",
   "                .attr('font-size', 10)",
   "                .attr('text-anchor', 'end')",
   "                .selectAll('g')",
   "                .data(graph.nodes)",
   "                .join('g')",
   "                .attr('class', 'node')",
   "                .attr('transform', d => `translate($\x7bmargin.left\x7d,$\x7by(d.id)\x7d)`);",
   "            node.append('text')",
   "                .attr('x', -6)",
   "                .attr('dy', '0.35em')",
   "                .attr('fill', d => categoryColors[d.group])",
   "                .text(d => d.id);",
   "            const circle = node.append('circle')",
   "                .attr('r', 3)",
   "                .attr('fill', d => categoryColors[d.group]);",
   "",
   "            node.on('mouseover', (event, d) => \x7b",
   "                path.attr('stroke-opacity', e => e.source === d.id || e.target === d.id " ++
     "? 1.0 : 0.1);",
   "                circle.attr('r', c => c.id === d.id ? 6 : 3);",
   "            \x7d)",
   "            .on('mouseout', () => \x7b",
   "                path.attr('stroke-opacity', 0.6);",
   "                circle.attr('r', 3);",
   "            \x7d)",
   "            .on('click', (event, d) => showReference(d.id));",
   "        \x7d",
   "",
   "        init();",
   "    </script>",
   "</body>",
   "</html>"]

def page : String := String.join (pageLines.map (· ++ "\n"))

end SourceAtlas.Server
